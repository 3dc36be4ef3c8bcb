/-!
# JSON tokens

A JSON text as a list of tokens. Strings are decoded as they are read; numbers are only
checked. An escape may name one half of a pair of code units; a string with a half that has
no partner is a token without content.
-/
namespace RegisterForm.Json

inductive Token where
  | openBrace | closeBrace | openBracket | closeBracket | colon | comma
  | null
  | boolean (value : Bool)
  | number
  | string (content : Option String)
  deriving DecidableEq, Repr

def isSpace (c : Char) : Bool := c == ' ' || c == '\n' || c == '\r' || c == '\t'

/-! ## Strings -/

/-- A part of a string as it is written: a character, or a code unit of sixteen bits. -/
inductive StringPart where
  | char (c : Char)
  | unit (n : Nat)
  deriving DecidableEq, Repr

def hexValue? (c : Char) : Option Nat :=
  if '0' ≤ c ∧ c ≤ '9' then some (c.toNat - '0'.toNat)
  else if 'a' ≤ c ∧ c ≤ 'f' then some (c.toNat - 'a'.toNat + 10)
  else if 'A' ≤ c ∧ c ≤ 'F' then some (c.toNat - 'A'.toNat + 10)
  else none

def unit? (a b c d : Char) : Option Nat := do
  return (((← hexValue? a) * 16 + (← hexValue? b)) * 16 + (← hexValue? c)) * 16 + (← hexValue? d)

/-- The character that a backslash and one letter stand for. -/
def shortEscape? : Char → Option Char
  | '\x22' => some '\x22'
  | '\\' => some '\\'
  | '/' => some '/'
  | 'b' => some '\x08'
  | 'f' => some '\x0c'
  | 'n' => some '\n'
  | 'r' => some '\r'
  | 't' => some '\t'
  | _ => none

/-- The parts of a string up to its closing quote, and what follows. -/
def stringParts? : List Char → Option (List StringPart × List Char)
  | [] => none
  | '\x22' :: rest => some ([], rest)
  | '\\' :: 'u' :: a :: b :: c :: d :: rest => do
    let n ← unit? a b c d
    let (parts, rest) ← stringParts? rest
    return (.unit n :: parts, rest)
  | '\\' :: e :: rest => do
    let c ← shortEscape? e
    let (parts, rest) ← stringParts? rest
    return (.char c :: parts, rest)
  | c :: rest =>
    if c.toNat < 0x20 then none
    else do
      let (parts, rest) ← stringParts? rest
      return (.char c :: parts, rest)

def isHighHalf (n : Nat) : Bool := decide (0xD800 ≤ n) && decide (n < 0xDC00)

def isLowHalf (n : Nat) : Bool := decide (0xDC00 ≤ n) && decide (n < 0xE000)

/-- The characters that the parts of a string stand for, if every half has its partner. -/
def joinParts? : List StringPart → Option (List Char)
  | [] => some []
  | .char c :: parts => (joinParts? parts).map (c :: ·)
  | [.unit n] => if isHighHalf n || isLowHalf n then none else some [Char.ofNat n]
  | .unit n :: .unit m :: parts =>
    if isHighHalf n then
      if isLowHalf m then
        (joinParts? parts).map (Char.ofNat (0x10000 + (n - 0xD800) * 0x400 + (m - 0xDC00)) :: ·)
      else none
    else if isLowHalf n then none
    else (joinParts? (.unit m :: parts)).map (Char.ofNat n :: ·)
  | .unit n :: .char c :: parts =>
    if isHighHalf n || isLowHalf n then none
    else (joinParts? parts).map (Char.ofNat n :: c :: ·)

/-! ## Numbers -/

/-- What follows one digit or more. -/
def skipDigits? (cs : List Char) : Option (List Char) :=
  match cs.span Char.isDigit with
  | ([], _) => none
  | (_ :: _, rest) => some rest

/-- What follows the whole part of a number, which has no leading zero. -/
def skipWhole? : List Char → Option (List Char)
  | '0' :: rest => some rest
  | cs => skipDigits? cs

def skipFraction? : List Char → Option (List Char)
  | '.' :: rest => skipDigits? rest
  | cs => some cs

def skipExponent? : List Char → Option (List Char)
  | c :: rest =>
    if c == 'e' || c == 'E' then
      match rest with
      | '+' :: rest => skipDigits? rest
      | '-' :: rest => skipDigits? rest
      | rest => skipDigits? rest
    else some (c :: rest)
  | [] => some []

/-- What follows an unsigned number. -/
def skipNumber? (cs : List Char) : Option (List Char) :=
  (skipWhole? cs).bind fun rest => (skipFraction? rest).bind skipExponent?

/-! ## Tokens -/

/-- The token at the start of a text, and what follows. -/
def token? : List Char → Option (Token × List Char)
  | '\x7b' :: rest => some (.openBrace, rest)
  | '\x7d' :: rest => some (.closeBrace, rest)
  | '[' :: rest => some (.openBracket, rest)
  | ']' :: rest => some (.closeBracket, rest)
  | ':' :: rest => some (.colon, rest)
  | ',' :: rest => some (.comma, rest)
  | 'n' :: 'u' :: 'l' :: 'l' :: rest => some (.null, rest)
  | 't' :: 'r' :: 'u' :: 'e' :: rest => some (.boolean true, rest)
  | 'f' :: 'a' :: 'l' :: 's' :: 'e' :: rest => some (.boolean false, rest)
  | '\x22' :: rest =>
    (stringParts? rest).map fun (parts, rest) =>
      (.string ((joinParts? parts).map String.ofList), rest)
  | '-' :: rest => (skipNumber? rest).map fun rest => (.number, rest)
  | cs => (skipNumber? cs).map fun rest => (.number, rest)

/-- The tokens of a text, `bound` of them at most. -/
def tokensWithin? : Nat → List Char → Option (List Token)
  | bound, cs =>
    match cs.dropWhile isSpace with
    | [] => some []
    | c :: rest =>
      match bound with
      | 0 => none
      | bound + 1 => do
        let (t, rest) ← token? (c :: rest)
        return t :: (← tokensWithin? bound rest)

/-- The tokens of a text. Each takes a character at least, so there are no more of them. -/
def tokens? (text : String) : Option (List Token) :=
  tokensWithin? text.length text.toList

end RegisterForm.Json
