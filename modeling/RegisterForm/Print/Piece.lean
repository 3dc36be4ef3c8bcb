import RegisterForm.Tree.Ident
import RegisterForm.Text.Quoted
/-!
# Pieces of printed code

Printed code is a list of pieces: the lexical units of the language and the white space
between them. Identifiers stay recognisable, so that what a tree prints can be compared with
what a walk of the tree meets.
-/
namespace RegisterForm

inductive Piece where
  | ident (x : Ident)
  /-- A property, a label or an export name. -/
  | name (text : String)
  | number (source : String)
  /-- A string literal, given by the text it stands for. -/
  | string (value : String)
  | regex (pattern flags : String)
  /-- The text of a template between two of its expressions, as it stands in the source. -/
  | chunk (text : String)
  /-- A keyword or punctuator. -/
  | sym (text : String)
  | space
  /-- A line end and the indentation of the next line. -/
  | line (level : Nat)
  deriving DecidableEq, Repr

namespace Piece

/-- Columns by which each level is indented. -/
def indentWidth : Nat := 4

def chars : Piece → List Char
  | ident x => x.name.toList
  | name text | number text | chunk text | sym text => text.toList
  | string value => Text.quote Text.escapeCode value
  | regex pattern flags => '/' :: pattern.toList ++ '/' :: flags.toList
  | space => [' ']
  | line level => '\n' :: List.replicate (indentWidth * level) ' '

/-- The text of a list of pieces. -/
def render (pieces : List Piece) : String := String.ofList (pieces.flatMap chars)

/-- The first `n` characters of a list of pieces, or all of them. -/
def leading : Nat → List Piece → List Char
  | _, [] => []
  | n, p :: ps =>
    let cs := p.chars.take n
    if cs.length < n then cs ++ leading (n - cs.length) ps else cs

theorem leading_eq_take (n : Nat) (pieces : List Piece) :
    leading n pieces = (pieces.flatMap chars).take n := by
  induction pieces generalizing n with
  | nil => simp [leading]
  | cons p ps ih =>
    simp only [leading, List.flatMap_cons, List.take_append, List.length_take]
    split
    · next h =>
      have : p.chars.length ≤ n := by omega
      simp [ih, Nat.min_eq_right this]
    · next h =>
      have : n ≤ p.chars.length := by omega
      simp [Nat.sub_eq_zero_of_le this]

/-- The identifier a piece shows, if it shows one. -/
def ident? : Piece → Option Ident
  | ident x => some x
  | _ => none

end Piece

/-! ## Layout -/

/-- The pieces between two punctuators. -/
def enclosed (opening closing : String) (inner : List Piece) : List Piece :=
  .sym opening :: inner ++ [.sym closing]

/-- The pieces in parentheses, if they are needed. -/
def parenthesized (needed : Bool) (inner : List Piece) : List Piece :=
  if needed then enclosed "(" ")" inner else inner

/-- Items separated by commas on one line. -/
def commaSeparated : List (List Piece) → List Piece
  | [] => []
  | [item] => item
  | item₁ :: item₂ :: items => item₁ ++ .sym "," :: .space :: commaSeparated (item₂ :: items)

/-- Items on lines of their own, a comma after each but the last. -/
def commaLines (level : Nat) : List (List Piece) → List Piece
  | [] => []
  | [item] => .line level :: item
  | item₁ :: item₂ :: items =>
    .line level :: item₁ ++ .sym "," :: commaLines level (item₂ :: items)

/-- Items on lines of their own between braces, one level deeper. -/
def braced (level : Nat) (items : List (List Piece)) : List Piece :=
  .sym "\x7b" :: items.flatMap (.line (level + 1) :: ·) ++ [.line level, .sym "\x7d"]

/-- A keyword or punctuator with a space after it, if it is wanted. -/
def spacedIf (wanted : Bool) (text : String) : List Piece :=
  if wanted then [.sym text, .space] else []

end RegisterForm
