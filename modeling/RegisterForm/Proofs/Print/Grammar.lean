import Mathlib.Data.List.Chain
import RegisterForm.Print.Tree
/-!
# The grammar of operator expressions

The expression grammar of the language, with await, as far as operators go: its tokens, its
nonterminals with their productions, and the trees that it derives. Nothing here looks at the
printer or at its ranks; the table that ties a rank to a nonterminal comes last.
-/
namespace RegisterForm

/-! ## Tokens -/

inductive Token where
  /-- A name or a keyword. -/
  | word (text : String)
  | punctuator (text : String)
  | number (source : String)
  /-- A literal of another kind. -/
  | literal (piece : Piece)
  deriving DecidableEq, Repr

namespace Token

/-- What a keyword or punctuator is read as. -/
def symbol (text : String) : Token :=
  if text.toList.head?.any Text.startsName then .word text else .punctuator text

def punctuators : List String :=
  ["\x7b", "\x7d", "(", ")", "[", "]", ".", "...", ";", ",", "<", ">", "<=", ">=", "==", "!=",
    "===", "!==", "+", "-", "*", "/", "%", "**", "++", "--", "<<", ">>", ">>>", "&", "|", "^",
    "!", "~", "&&", "||", "??", "?", "?.", ":", "=", "+=", "-=", "*=", "%=", "**=", "/=", "<<=",
    ">>=", ">>>=", "&=", "|=", "^=", "&&=", "||=", "??=", "=>"]

/-- Whether the first of two punctuators, with the second right behind it, reads as the
beginning of a longer one. -/
def lengthens (p q : String) : Bool :=
  punctuators.any fun u =>
    p != u && p.toList.isPrefixOf u.toList
      && (u.toList.isPrefixOf (p ++ q).toList || (p ++ q).toList.isPrefixOf u.toList)

/-- Whether two tokens with nothing between them read as others: two words as one, a number
and a point as a fraction, two punctuators as a longer one. -/
def runsInto : Token → Token → Bool
  | .word _, .word _ | .word _, .number _ | .number _, .word _ | .number _, .number _ => true
  | .number _, .punctuator q => q == "."
  | .punctuator p, .number _ => p == "."
  | .punctuator p, .punctuator q => lengthens p q
  | _, _ => false

end Token

/-- The token that a piece shows; white space shows none. -/
def Piece.token? : Piece → Option Token
  | ident x => some (.word x.name)
  | name text => some (.word text)
  | number source => some (.number source)
  | sym text => some (.symbol text)
  | space | line _ => none
  | p => some (.literal p)

/-- The tokens of printed code. -/
def tokens (pieces : List Piece) : List Token := pieces.filterMap (·.token?)

/-- Two pieces that do not run into one another when they stand side by side. -/
def Piece.Apart (p q : Piece) : Prop :=
  ∀ t ∈ p.token?, ∀ u ∈ q.token?, t.runsInto u = false

/-- No two pieces that stand side by side run into one another. -/
def KeptApart (pieces : List Piece) : Prop := pieces.IsChain Piece.Apart

/-! ## Names and numbers -/

/-- The words of the language that name nothing, in a module. -/
def reservedWords : List String :=
  ["await", "break", "case", "catch", "class", "const", "continue", "debugger", "default",
    "delete", "do", "else", "enum", "export", "extends", "false", "finally", "for", "function",
    "if", "import", "in", "instanceof", "new", "null", "return", "super", "switch", "this",
    "throw", "true", "try", "typeof", "var", "void", "while", "with", "yield"]

/-- Whether a text can be the name of a variable. -/
def isVariableName (text : String) : Bool :=
  Text.isIdentifierName text && !reservedWords.contains text

/-- Digits, single underscores between them allowed. -/
def areDigits (isDigit : Char → Bool) : List Char → Bool
  | [] => false
  | [c] => isDigit c
  | c :: '_' :: cs => isDigit c && areDigits isDigit cs
  | c :: cs => isDigit c && areDigits isDigit cs

/-- The exponent of a number, if there is one. -/
def isExponent : List Char → Bool
  | [] => true
  | e :: cs =>
    (e == 'e' || e == 'E') && areDigits Char.isDigit
      (match cs with
        | '+' :: ds | '-' :: ds => ds
        | ds => ds)

/-- The digits at the start of a text and what follows them. -/
def spanDigits (cs : List Char) : List Char × List Char :=
  cs.span fun c => c.isDigit || c == '_'

/-- Digits after a point, possibly none, and an exponent. -/
def isFraction (cs : List Char) : Bool :=
  ((spanDigits cs).1.isEmpty || areDigits Char.isDigit (spanDigits cs).1)
    && isExponent (spanDigits cs).2

/-- A whole number in decimal notation, with no zero before other digits. -/
def isWhole : List Char → Bool
  | ['0'] => true
  | '0' :: _ => false
  | cs => areDigits Char.isDigit cs

def isDecimal (cs : List Char) : Bool :=
  match cs with
  | '.' :: ds => !(spanDigits ds).1.isEmpty && isFraction ds
  | _ =>
    isWhole (spanDigits cs).1
      && match (spanDigits cs).2 with
        | '.' :: ds => isFraction ds
        | ['n'] => true
        | ds => isExponent ds

/-- A numeric literal without a sign: decimal, or with a base; a whole one may be a big integer. -/
def isNumericLiteral (source : String) : Bool :=
  let unsuffixed (cs : List Char) := if cs.getLast? == some 'n' then cs.dropLast else cs
  match source.toList with
  | '0' :: 'x' :: cs | '0' :: 'X' :: cs =>
    areDigits (fun c => c.isDigit || ('a' ≤ c && c ≤ 'f') || ('A' ≤ c && c ≤ 'F')) (unsuffixed cs)
  | '0' :: 'o' :: cs | '0' :: 'O' :: cs => areDigits (fun c => '0' ≤ c && c ≤ '7') (unsuffixed cs)
  | '0' :: 'b' :: cs | '0' :: 'B' :: cs => areDigits (fun c => c == '0' || c == '1') (unsuffixed cs)
  | cs => isDecimal cs

example : ["0", "1_000", "1.5e-3", ".5", "5.", "0xFFn", "0b101", "10n"].all isNumericLiteral = true := by
  decide

example : ["", ".", "-1", "+1", "01", "1__0", "1_", "0x", "1e", "1.n"].any isNumericLiteral = false := by
  decide

/-! ## Trees without parentheses -/

mutual

/-- The tree without parentheses and without the identities of its nodes; what is no operator
expression stays as it is. -/
def Expr.bare : Expr → Expr
  | .ident x => .ident (.synthetic x.name)
  | .unary op arg => .unary op arg.bare
  | .update op isBefore arg => .update op isBefore arg.bare
  | .binary op left right => .binary op left.bare right.bare
  | .assign op target value => .assign op target.bare value.bare
  | .conditional test yes no => .conditional test.bare yes.bare no.bare
  | .call callee args isOptional => .call callee.bare (bareAll args) isOptional
  | .newBare callee => .newBare callee.bare
  | .newCall callee args => .newCall callee.bare (bareAll args)
  | .member owner name isOptional => .member owner.bare name isOptional
  | .index owner key isOptional => .index owner.bare key.bare isOptional
  | .sequence exprs => .sequence (bareAll exprs)
  | .paren inner => inner.bare
  | .await arg => .await arg.bare
  | e => e

def bareAll : List Expr → List Expr
  | [] => []
  | e :: es => e.bare :: bareAll es

/-- A variable as a target is one target, whether the tree holds it as a pattern or as an
expression. -/
def Pattern.bare : Pattern → Pattern
  | .expr e =>
    match e.bare with
    | .ident x => .ident x
    | e => .expr e
  | .ident x => .ident (.synthetic x.name)
  | p => p

end

namespace Expr

/-- Whether an expression can be assigned to: a variable or a property, in parentheses or not. -/
def isSimpleTarget (e : Expr) : Bool :=
  match e.bare with
  | ident _ | member _ _ _ | index _ _ _ => true
  | _ => false

end Expr

/-! ## Productions -/

inductive Nonterminal where
  | primary | member | construct | call | leftHandSide | update | unary | exponentiation
  | multiplicative | additive | shift | relational | equality | bitAnd | bitXor | bitOr
  | logicalAnd | logicalOr | coalesceHead | coalesce | shortCircuit | conditional | assignment
  | expression
  deriving DecidableEq, Repr

open Nonterminal

/-- The productions with one nonterminal and nothing else on their right. -/
def Nonterminal.units : Nonterminal → List Nonterminal
  | member => [primary]
  | construct => [member]
  | leftHandSide => [construct, call]
  | update => [leftHandSide]
  | unary => [update]
  | exponentiation => [unary]
  | multiplicative => [exponentiation]
  | additive => [multiplicative]
  | shift => [additive]
  | relational => [shift]
  | equality => [relational]
  | bitAnd => [equality]
  | bitXor => [bitAnd]
  | bitOr => [bitXor]
  | logicalAnd => [bitOr]
  | logicalOr => [logicalAnd]
  | coalesceHead => [coalesce, bitOr]
  | shortCircuit => [logicalOr, coalesce]
  | conditional => [shortCircuit]
  | assignment => [conditional]
  | expression => [assignment]
  | primary | call | coalesce => []

/-- A binary operator with the nonterminal of its production and those of its operands. -/
structure BinaryProduction where
  result : Nonterminal
  left : Nonterminal
  right : Nonterminal

def BinaryOp.production : BinaryOp → BinaryProduction
  | exp => ⟨exponentiation, update, exponentiation⟩
  | mul | div | mod => ⟨multiplicative, multiplicative, exponentiation⟩
  | add | sub => ⟨additive, additive, multiplicative⟩
  | shl | shr | ushr => ⟨shift, shift, additive⟩
  | lt | gt | le | ge | isIn | instanceOf => ⟨relational, relational, shift⟩
  | eq | ne | strictEq | strictNe => ⟨equality, equality, relational⟩
  | bitAnd => ⟨Nonterminal.bitAnd, Nonterminal.bitAnd, equality⟩
  | bitXor => ⟨Nonterminal.bitXor, Nonterminal.bitXor, Nonterminal.bitAnd⟩
  | bitOr => ⟨Nonterminal.bitOr, Nonterminal.bitOr, Nonterminal.bitXor⟩
  | and => ⟨logicalAnd, logicalAnd, Nonterminal.bitOr⟩
  | or => ⟨logicalOr, logicalOr, logicalAnd⟩
  | nullish => ⟨coalesce, coalesceHead, Nonterminal.bitOr⟩

mutual

/-- The tokens that a nonterminal derives, and the tree of each derivation. -/
inductive Derives : Nonterminal → List Token → Expr → Prop
  | unit {outer inner ts e} : inner ∈ outer.units → Derives inner ts e → Derives outer ts e
  | this : Derives primary [.word "this"] .this
  | ident {name} : isVariableName name = true →
      Derives primary [.word name] (.ident (.synthetic name))
  | number {source} : isNumericLiteral source = true →
      Derives primary [.number source] (.literal (.number source))
  | paren {ts e} : Derives expression ts e →
      Derives primary (.symbol "(" :: ts ++ [.symbol ")"]) (.paren e)
  | name {s ts owner name} : s = member ∨ s = call → Derives s ts owner →
      Text.isIdentifierName name = true →
      Derives s (ts ++ [.symbol ".", .word name]) (.member owner name false)
  | index {s ts us owner key} : s = member ∨ s = call → Derives s ts owner →
      Derives expression us key →
      Derives s (ts ++ .symbol "[" :: us ++ [.symbol "]"]) (.index owner key false)
  | newCall {ts us callee args} : Derives member ts callee → DerivesArguments us args →
      Derives member (.word "new" :: ts ++ us) (.newCall callee args)
  | newBare {ts callee} : Derives construct ts callee →
      Derives construct (.word "new" :: ts) (.newBare callee)
  | call {s ts us callee args} : s = member ∨ s = call → Derives s ts callee →
      DerivesArguments us args → Derives call (ts ++ us) (.call callee args false)
  | updateAfter {op ts e} : Derives leftHandSide ts e → e.isSimpleTarget = true →
      Derives update (ts ++ [.symbol (UpdateOp.text op)]) (.update op false e)
  | updateBefore {op ts e} : Derives unary ts e → e.isSimpleTarget = true →
      Derives update (.symbol (UpdateOp.text op) :: ts) (.update op true e)
  | unary {op ts e} : Derives unary ts e →
      Derives unary (.symbol (UnaryOp.text op) :: ts) (.unary op e)
  | await {ts e} : Derives unary ts e → Derives unary (.word "await" :: ts) (.await e)
  | binary {op ts us left right} : Derives (BinaryOp.production op).left ts left →
      Derives (BinaryOp.production op).right us right →
      Derives (BinaryOp.production op).result (ts ++ .symbol (BinaryOp.text op) :: us)
        (.binary op left right)
  | conditional {ts us vs test yes no} : Derives shortCircuit ts test →
      Derives assignment us yes → Derives assignment vs no →
      Derives conditional (ts ++ .symbol "?" :: us ++ .symbol ":" :: vs)
        (.conditional test yes no)
  | assign {op ts us target value} : Derives leftHandSide ts target →
      target.isSimpleTarget = true → Derives assignment us value →
      Derives assignment (ts ++ .symbol (AssignOp.text op) :: us)
        (.assign op (.expr target) value)
  | sequence {ts es} : 2 ≤ es.length → DerivesList ts es → Derives expression ts (.sequence es)

/-- One expression or several with commas between them. -/
inductive DerivesList : List Token → List Expr → Prop
  | one {ts e} : Derives assignment ts e → DerivesList ts [e]
  | cons {ts us e es} : Derives assignment ts e → DerivesList us es →
      DerivesList (ts ++ .symbol "," :: us) (e :: es)

inductive DerivesArguments : List Token → List Expr → Prop
  | none : DerivesArguments [.symbol "(", .symbol ")"] []
  | some {ts es} : DerivesList ts es →
      DerivesArguments (.symbol "(" :: ts ++ [.symbol ")"]) es

end

/-! ## Slots -/

/-- The nonterminals for a slot that asks for a rank. Before arguments or a dot either a
member expression or a call may stand. -/
def Nonterminal.slots : Nat → List Nonterminal
  | 0 => [expression]
  | 1 | 2 => [assignment]
  | 3 => [conditional]
  | 4 => [shortCircuit]
  | 5 => [logicalAnd]
  | 6 => [bitOr]
  | 7 => [bitXor]
  | 8 => [bitAnd]
  | 9 => [equality]
  | 10 => [relational]
  | 11 => [shift]
  | 12 => [additive]
  | 13 => [multiplicative]
  | 14 => [exponentiation]
  | 15 => [unary]
  | 16 => [update]
  | 17 => [leftHandSide]
  | 18 => [member, call]
  | _ => [primary]

end RegisterForm
