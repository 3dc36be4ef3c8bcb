import RegisterForm.Print.Tree
/-!
# How an expression starts

The grammar asks of some places that an expression does not start as a block, a function or a
class would. What an expression starts with is decided by its leftmost part, however deep it
lies, unless parentheses stand before that.
-/
namespace RegisterForm

/-- The starts of an expression that mean something else in some places. -/
inductive Start where
  | brace | function | asyncFunction | classWord | other
  deriving DecidableEq, Repr

/-- How printed pieces start. -/
def startOf : List Piece → Start
  | .sym "\x7b" :: _ => .brace
  | .sym "function" :: _ => .function
  | .sym "async" :: .space :: .sym "function" :: _ => .asyncFunction
  | .sym "class" :: _ => .classWord
  | _ => .other

/-- The start of what stands in parentheses, if they are needed. -/
def Start.inside (needed : Bool) (start : Start) : Start := if needed then .other else start

mutual

/-- How an expression starts, as far as its tree tells. -/
def Expr.start : Expr → Start
  | .object _ => .brace
  | .function f => f.start
  | .classExpr _ => .classWord
  | .tagged tag _ _ => .inside (tag.rank < Rank.call) tag.start
  | .update _ false arg => .inside (arg.rank < Rank.construct) arg.start
  | .binary op left _ =>
    .inside (left.clashesWith op || (op == .exp && left.isUnaryLike)
      || left.rank < if op.isRightAssociative then op.precedence + 1 else op.precedence) left.start
  | .assign _ target _ => target.start
  | .conditional test _ _ => .inside (test.rank < Rank.conditional + 1) test.start
  | .call callee _ _ => .inside (callee.rank < Rank.call) callee.start
  | .member owner _ _ | .index owner _ _ =>
    .inside (owner.rank < Rank.call || owner.isNumber) owner.start
  | .sequence exprs => startOfFirst exprs
  | _ => .other

def startOfFirst : List Expr → Start
  | [] => .other
  | e :: _ => .inside (e.rank < Rank.assign) e.start

def Func.start : Func → Start
  | ⟨_, _, _, isAsync, _⟩ => if isAsync then .asyncFunction else .function

def Pattern.start : Pattern → Start
  | .expr e => .inside (e.rank < Rank.call) e.start
  | .object _ _ => .brace
  | _ => .other

end

/-- Pieces that start in one way, whatever follows them; a start that could be misread is one
that the text shows. -/
structure Led (pieces : List Piece) (start : Start) : Prop where
  startOf_append : ∀ rest, startOf (pieces ++ rest) = start
  startsAmbiguously : start ≠ .other → ∀ rest, startsAmbiguously (pieces ++ rest) = true

namespace Led

variable {ps : List Piece} {start : Start}

theorem append (h : Led ps start) (qs : List Piece) : Led (ps ++ qs) start := by
  refine ⟨?_, ?_⟩
  · intro rest
    rw [List.append_assoc]
    exact h.startOf_append _
  · intro hs rest
    rw [List.append_assoc]
    exact h.startsAmbiguously hs _

theorem other (h : ∀ rest, startOf (ps ++ rest) = .other) : Led ps .other :=
  ⟨h, fun hs => absurd rfl hs⟩

theorem inParens (ps : List Piece) : Led (enclosed "(" ")" ps) .other :=
  .other fun _ => rfl

/-- An operand in a slot that no sequence fits without parentheses. -/
theorem slot (min : Nat) {e : Expr} {needed : Bool} {n : Nat}
    (h : e ≠ .sequence [] → Led (e.pieces n) e.start)
    (hneeded : needed = false → min ≤ e.rank) (hmin : 0 < min := by decide) :
    Led (parenthesized needed (e.pieces n)) (.inside needed e.start) := by
  cases needed with
  | true => exact inParens _
  | false =>
    apply h
    rintro rfl
    exact absurd (Nat.lt_of_lt_of_le hmin (hneeded rfl)) (Nat.lt_irrefl 0)

end Led

/-- A word and a character that ends it begin a text. -/
theorem startsWithWord_append (word : List Char) {c : Char} (hc : Text.continuesName c = false)
    (text : List Char) : startsWithWord word (word ++ c :: text) = true := by
  simp [startsWithWord, hc]

/-- A space and a star end a name. -/
theorem ends_name : Text.continuesName ' ' = false ∧ Text.continuesName '*' = false := by
  decide +kernel

section Ambiguous

variable {pieces : List Piece} {text : List Char}

theorem startsAmbiguously_of_brace (h : pieces.flatMap Piece.chars = '\x7b' :: text) :
    startsAmbiguously pieces = true := by
  have hbrace : ((Piece.leading "async function".length pieces).head? == some '\x7b') = true := by
    rw [Piece.leading_eq_take, h]
    rfl
  rw [startsAmbiguously, hbrace, Bool.true_or, Bool.true_or, Bool.true_or]

theorem startsAmbiguously_of_async
    (h : pieces.flatMap Piece.chars = "async function".toList ++ text) :
    startsAmbiguously pieces = true := by
  have htake : Piece.leading "async function".length pieces = "async function".toList := by
    rw [Piece.leading_eq_take, h, ← String.length_toList, List.take_left]
  have hasync : "async function".toList.isPrefixOf
      (Piece.leading "async function".length pieces) = true := by
    rw [htake]
    decide
  rw [startsAmbiguously, hasync, Bool.or_true]

/-- A keyword, of the two that are short enough to show what ends them, begins the pieces. -/
theorem startsAmbiguously_of_word {word : String} (hword : word = "function" ∨ word = "class")
    {c : Char} (hc : Text.continuesName c = false)
    (h : pieces.flatMap Piece.chars = word.toList ++ c :: text) :
    startsAmbiguously pieces = true := by
  have hlength : word.toList.length < "async function".length := by
    obtain rfl | rfl := hword <;> decide
  have htake : Piece.leading "async function".length pieces
      = word.toList ++ c :: text.take ("async function".length - word.toList.length - 1) := by
    rw [Piece.leading_eq_take, h, List.take_append, List.take_of_length_le (by omega),
      List.take_cons (by omega)]
  have hstarts : startsWithWord word.toList (Piece.leading "async function".length pieces) = true := by
    rw [htake]
    exact startsWithWord_append _ hc _
  obtain rfl | rfl := hword
  · rw [startsAmbiguously, hstarts, Bool.or_true, Bool.true_or, Bool.true_or]
  · rw [startsAmbiguously, hstarts, Bool.or_true, Bool.true_or]

end Ambiguous

/-! ## What trees start with -/

theorem Literal.startOf_piece (value : Literal) (rest : List Piece) :
    startOf (value.piece :: rest) = .other := by
  cases value with
  | boolean value => cases value <;> rfl
  | _ => rfl

theorem Func.led (n : Nat) (f : Func) : Led (f.pieces n) f.start := by
  obtain ⟨name, params, body, isAsync, isGenerator⟩ := f
  cases isAsync with
  | true =>
    refine ⟨fun rest => rfl, fun _ rest => ?_⟩
    exact startsAmbiguously_of_async rfl
  | false =>
    refine ⟨fun rest => rfl, fun _ rest => ?_⟩
    cases isGenerator with
    | true => exact startsAmbiguously_of_word (.inl rfl) ends_name.2 rfl
    | false => exact startsAmbiguously_of_word (.inl rfl) ends_name.1 rfl

theorem Class.led (n : Nat) (c : Class) : Led (c.pieces n) .classWord := by
  obtain ⟨name, base, members⟩ := c
  refine ⟨fun rest => rfl, fun _ rest => ?_⟩
  cases name with
  | some x => exact startsAmbiguously_of_word (.inr rfl) ends_name.1 rfl
  | none =>
    cases base with
    | some e => exact startsAmbiguously_of_word (.inr rfl) ends_name.1 rfl
    | none => exact startsAmbiguously_of_word (.inr rfl) ends_name.1 rfl

theorem led_brace (ps : List Piece) : Led (.sym "\x7b" :: ps) .brace :=
  ⟨fun _ => rfl, fun _ _ => startsAmbiguously_of_brace rfl⟩

theorem led_bracedNames (items : List (List Piece)) : Led (bracedNames items) .brace := by
  cases items with
  | nil => exact led_brace _
  | cons item items => exact led_brace _

mutual

/-- An expression prints with the start that its tree tells. -/
theorem Expr.led (n : Nat) : ∀ e : Expr, e ≠ .sequence [] → Led (e.pieces n) e.start
  | .ident _, _ | .template _ _, _ | .this, _ | .super, _ | .newBare _, _ | .newCall _ _, _
  | .paren _, _ | .await _, _ | .spread _, _ | .importCall _, _ | .importMeta, _ =>
    .other fun _ => rfl
  | .literal value, _ => .other fun rest => value.startOf_piece rest
  | .array elements, _ => by
    change Led (if elements.any (·.any Expr.isFunctionLike) then _ else _) .other
    split <;> exact .other fun _ => rfl
  | .object [], _ | .object (_ :: _), _ => led_brace _
  | .function f, _ => f.led n
  | .classExpr c, _ => c.led n
  | .arrow params body isAsync, _ => by
    cases isAsync <;> exact .other fun _ => rfl
  | .unary op arg, _ => by
    cases op <;> exact .other fun _ => rfl
  | .update op true arg, _ => by
    cases op <;> exact .other fun _ => rfl
  | .yield arg isDelegate, _ => by
    cases isDelegate <;> exact .other fun _ => rfl
  | .tagged tag _ _, _ => (Led.slot Rank.call (tag.led n) rank_of_bare).append _
  | .update op false arg, _ => (Led.slot Rank.construct (arg.led n) rank_of_bare).append _
  | .binary op left right, _ => by
    have hmin : 0 < if op.isRightAssociative then op.precedence + 1 else op.precedence := by
      cases op <;> decide
    rw [Expr.pieces_binary]
    exact (Led.slot _ (left.led n) rank_of_bare_or hmin).append _
  | .assign op target value, _ => (target.led n).append _
  | .conditional test yes no, _ =>
    ((Led.slot (Rank.conditional + 1) (test.led n) rank_of_bare).append _).append _
  | .call callee args _, _ => ((Led.slot Rank.call (callee.led n) rank_of_bare).append _).append _
  | .member owner _ _, _ =>
    (Led.slot Rank.call (owner.led n) fun h =>
      rank_of_bare (Bool.or_eq_false_iff.mp h).1).append _
  | .index owner _ _, _ =>
    ((Led.slot Rank.call (owner.led n) fun h =>
      rank_of_bare (Bool.or_eq_false_iff.mp h).1).append _).append _
  | .sequence [], h => absurd rfl h
  | .sequence [e], _ => Led.slot Rank.assign (e.led n) rank_of_bare
  | .sequence (e :: e' :: es), _ => (Led.slot Rank.assign (e.led n) rank_of_bare).append _

theorem Pattern.led (n : Nat) : ∀ p : Pattern, Led (p.pieces n) p.start
  | .ident _ => .other fun _ => rfl
  | .expr e => Led.slot Rank.call (e.led n) rank_of_bare
  | .object _ _ => led_bracedNames _
  | .array _ _ => .other fun _ => rfl

end

end RegisterForm
