import RegisterForm.Proofs.Print.Outline
import RegisterForm.Proofs.Tree.WellFormed
/-!
# The first words of a statement

An expression at the start of a statement must not look like another statement. Its first piece is
a name or one of a few keywords and punctuators, and a word at its start has no colon behind it, so
that it reads neither as a label nor as a keyword of a statement.
-/
namespace RegisterForm

/-! ## Names -/

theorem symbol_closing : Token.symbol "\x7d" = .punctuator "\x7d" := by decide +kernel

theorem symbol_colon : Token.symbol ":" = .punctuator ":" := by decide +kernel

/-- Whether a text names a variable or a label in strict code. -/
def isStrictName (text : String) : Bool := isVariableName text && text != "let"

/-- Such a name opens no statement of its own. -/
theorem opening_of_isStrictName {p : Piece} {text : String} (htoken : p.token? = some (.word text))
    (h : isStrictName text = true) : p.opening = .word text := by
  have hwords : ∀ w ∈ "if" :: "do" :: "for" :: "while" :: "with" :: otherStatements,
      isStrictName w = false := by decide +kernel
  have hnot : text ∉ "if" :: "do" :: "for" :: "while" :: "with" :: otherStatements := by
    intro hmem
    rw [hwords text hmem] at h
    cases h
  simp only [List.mem_cons, not_or] at hnot
  simp [Piece.opening, htoken, hnot]

/-! ## Starts of expressions -/

/-- The punctuators that an expression can start with. -/
def startMarks : List String :=
  ["(", "[", "\x7b", "`", "...", "++", "--", "!", "-", "+", "~"]

/-- The keywords and punctuators that an expression can start with. -/
def expressionStarts : List String :=
  startMarks ++ ["async", "await", "class", "delete", "false", "function", "import", "new", "null",
    "super", "this", "true", "typeof", "void", "yield", "yield*"]

/-- Whether an expression with some identifiers can start with a piece. -/
def Piece.Leads (xs : List Ident) : Piece → Prop
  | ident x => x ∈ xs
  | sym text => text ∈ expressionStarts
  | number _ | string _ | regex _ _ => True
  | name _ | chunk _ | space | line _ => False

theorem Piece.Leads.token {xs : List Ident} {p : Piece} (h : p.Leads xs) :
    p.token?.isSome = true ∧ p.token? ≠ some (.symbol ":") ∧ p.token? ≠ some (.symbol "\x7d") := by
  have hstarts : ∀ text ∈ expressionStarts, text ≠ ":" ∧ text ≠ "\x7d" := by decide
  cases p with
  | sym text => exact ⟨rfl, symbol_ne (hstarts text h).1, symbol_ne (hstarts text h).2⟩
  | ident _ | number _ | string _ | regex _ _ =>
    rw [symbol_colon, symbol_closing]
    simp [token?]
  | name _ | chunk _ | space | line _ => exact h.elim

def Piece.isWord (p : Piece) : Bool :=
  match p.token? with
  | some (.word _) => true
  | _ => false

/-- Pieces that start as an expression can: if a word comes first, no colon is next. -/
inductive Opens (xs : List Ident) : List Piece → Prop
  | word {p qs} : p.Leads xs → readSym ":" qs = none → Opens xs (p :: qs)
  | mark {p qs} : p.Leads xs → p.isWord = false → Opens xs (p :: qs)

/-- A bracket or another mark. -/
theorem opens_mark {xs : List Ident} {text : String} (ps : List Piece) (h : text ∈ startMarks := by decide) :
    Opens xs (.sym text :: ps) := by
  have hmarks : ∀ text ∈ startMarks, (Piece.sym text).isWord = false := by decide +kernel
  exact .mark (List.mem_append_left _ h) (hmarks text h)

theorem readSym_append_eq_none {text : String} {ps rest : List Piece} (h : readSym text ps = none)
    (hrest : readSym text rest = none) : readSym text (ps ++ rest) = none := by
  cases hlead : lead ps with
  | none =>
    have happend : lead (ps ++ rest) = lead rest := by
      fun_induction lead ps with
      | case1 => rfl
      | case2 => cases hlead
      | case3 p ps hp ih =>
        rw [List.cons_append, lead, if_neg hp]
        refine ih ?_ hlead
        rwa [readSym, lead, if_neg hp, ← readSym] at h
    rw [readSym, happend, ← readSym, hrest]
  | some found =>
    refine readSym_eq_none (lead_append hlead rest) fun htoken => ?_
    simp [readSym, hlead, htoken] at h

namespace Opens
variable {xs : List Ident} {ps rest : List Piece}

theorem append (h : Opens xs ps) (hrest : readSym ":" rest = none) : Opens xs (ps ++ rest) := by
  cases h with
  | word hp hqs => exact .word hp (readSym_append_eq_none hqs hrest)
  | mark hp hmark => exact .mark hp hmark

theorem append_append {qs : List Piece} (h : Opens xs ps)
    (hrest : readSym ":" (qs ++ rest) = none) : Opens xs (ps ++ qs ++ rest) := by
  rw [List.append_assoc]
  exact h.append hrest

theorem inParens (ps : List Piece) : Opens xs (enclosed "(" ")" ps) := opens_mark _

/-- No colon comes first. -/
theorem noColon (h : Opens xs ps) (rest : List Piece) : readSym ":" (ps ++ rest) = none := by
  cases h with
  | word hp _ | mark hp _ => exact readSym_eq_none (if_pos hp.token.1) hp.token.2.1

/-- An operand in a slot that no sequence fits without parentheses. -/
theorem slot (min : Nat) {e : Expr} {needed : Bool} {n : Nat}
    (h : e ≠ .sequence [] → Opens xs (e.pieces n))
    (hneeded : needed = false → min ≤ e.rank) (hmin : 0 < min := by decide) :
    Opens xs (parenthesized needed (e.pieces n)) := by
  cases needed with
  | true => exact inParens _
  | false =>
    apply h
    rintro rfl
    exact absurd (Nat.lt_of_lt_of_le hmin (hneeded rfl)) (Nat.lt_irrefl 0)

end Opens

section Keywords
variable {xs : List Ident} {text : String} {ps : List Piece}

theorem noColon_ident (x : Ident) (ps : List Piece) : readSym ":" (.ident x :: ps) = none := by
  refine readSym_eq_none rfl ?_
  rw [symbol_colon]
  simp [Piece.token?]

/-- A keyword with no colon behind it. -/
theorem opens_word (h : readSym ":" ps = none) (htext : text ∈ expressionStarts := by decide) :
    Opens xs (.sym text :: ps) :=
  .word htext h

theorem noColon_spaced (h : readSym ":" ps = none) : readSym ":" (.space :: ps) = none := by
  rw [readSym_gap rfl, h]

theorem Opens.noColon_self (h : Opens xs ps) : readSym ":" ps = none := by
  rw [← List.append_nil ps]
  exact h.noColon []

theorem identsIn_left {vs ws : List Visit} (h : identsIn (vs ++ ws) ⊆ xs) : identsIn vs ⊆ xs := by
  rw [identsIn_append] at h
  exact fun x hx => h (List.mem_append_left _ hx)

end Keywords

theorem Literal.opens (xs : List Ident) (value : Literal) : Opens xs [value.piece] := by
  cases value with
  | boolean value => cases value <;> exact opens_word rfl
  | null => exact opens_word rfl
  | string _ | number _ | regex _ _ => exact .word trivial rfl

theorem Func.opens (n : Nat) (xs : List Ident) (f : Func) : Opens xs (f.pieces n) := by
  obtain ⟨name, params, body, isAsync, isGenerator⟩ := f
  cases isAsync with
  | true => exact opens_word (noColon_spaced (readSym_other _))
  | false =>
    refine opens_word ?_
    cases isGenerator with
    | true => exact readSym_other _
    | false =>
      cases name with
      | none => exact noColon_spaced (readSym_other _)
      | some x => exact noColon_spaced (noColon_ident x _)

theorem Class.opens (n : Nat) (xs : List Ident) (c : Class) : Opens xs (c.pieces n) := by
  obtain ⟨name, base, members⟩ := c
  refine opens_word ?_
  cases name with
  | some x => exact noColon_spaced (noColon_ident x _)
  | none => cases base <;> exact noColon_spaced (readSym_other _)

mutual

/-- An expression prints as it can start, also in sight of what could be read as a label. -/
theorem Expr.opens (n : Nat) (xs : List Ident) : ∀ e : Expr, e ≠ .sequence [] →
    identsIn e.visits ⊆ xs → Opens xs (e.pieces n)
  | .ident x, _, hxs => .word (hxs List.mem_cons_self) rfl
  | .literal value, _, _ => value.opens xs
  | .function f, _, _ => f.opens n xs
  | .classExpr c, _, _ => c.opens n xs
  | .template _ _, _, _ | .paren _, _, _ | .spread _, _, _ | .object [], _, _
  | .object (_ :: _), _, _ => opens_mark _
  | .array elements, _, _ => by
    change Opens xs (if elements.any (·.any Expr.isFunctionLike) then _ else _)
    split <;> exact opens_mark _
  | .this, _, _ | .super, _, _ => opens_word rfl
  | .importCall _, _, _ | .importMeta, _, _ => opens_word (readSym_other _)
  | .arrow params body isAsync, _, _ => by
    cases isAsync with
    | true => exact opens_word (noColon_spaced (readSym_other _))
    | false => exact opens_mark _
  | .unary op arg, _, hxs => by
    have harg : Opens xs (parenthesized (arg.rank < Rank.unary) (arg.pieces n)) :=
      .slot Rank.unary (arg.opens n xs · hxs) rank_of_bare
    have hgap : ∀ isWanted : Bool, readSym ":" ((if isWanted then [.space] else [])
        ++ parenthesized (arg.rank < Rank.unary) (arg.pieces n)) = none := by
      intro isWanted
      cases isWanted with
      | false => exact harg.noColon_self
      | true => exact noColon_spaced harg.noColon_self
    cases op <;> exact opens_word (hgap _)
  | .update op true arg, _, hxs => by
    cases op <;> exact opens_mark _
  | .update op false arg, _, hxs => by
    have harg : Opens xs (parenthesized (arg.rank < Rank.construct) (arg.pieces n)) :=
      .slot Rank.construct (arg.opens n xs · hxs) rank_of_bare
    exact harg.append (by cases op <;> exact readSym_other _)
  | .yield none isDelegate, _, _ => by
    cases isDelegate <;> exact opens_word rfl
  | .yield (some arg) isDelegate, _, hxs => by
    have harg : Opens xs (parenthesized (arg.rank < Rank.assign) (arg.pieces n)) :=
      .slot Rank.assign (arg.opens n xs · hxs) rank_of_bare
    cases isDelegate <;> exact opens_word (noColon_spaced harg.noColon_self)
  | .await arg, _, hxs => by
    have harg : Opens xs (parenthesized (arg.rank < Rank.unary) (arg.pieces n)) :=
      .slot Rank.unary (arg.opens n xs · hxs) rank_of_bare
    exact opens_word (noColon_spaced harg.noColon_self)
  | .newBare callee, _, hxs => by
    have hcallee : Opens xs (parenthesized (!callee.isPlainCallee) (callee.pieces n)) :=
      .slot Rank.call (callee.opens n xs · hxs) (fun h => rank_of_isPlainCallee (by simpa using h))
    exact opens_word (noColon_spaced hcallee.noColon_self)
  | .newCall callee args, _, hxs => by
    have hxs : identsIn (callee.visits ++ exprsVisits args) ⊆ xs := hxs
    have hcallee : Opens xs (parenthesized (!callee.isPlainCallee) (callee.pieces n)) :=
      .slot Rank.call (callee.opens n xs · (identsIn_left hxs)) (fun h => rank_of_isPlainCallee (by simpa using h))
    exact opens_word (noColon_spaced (hcallee.noColon _))
  | .tagged tag _ parts, _, hxs => by
    have hxs : identsIn (tag.visits ++ exprsVisits parts) ⊆ xs := hxs
    exact (Opens.slot Rank.call (tag.opens n xs · (identsIn_left hxs)) rank_of_bare).append
      (readSym_other _)
  | .binary op left right, _, hxs => by
    have hxs : identsIn (left.visits ++ right.visits) ⊆ xs := hxs
    have hmin : 0 < if op.isRightAssociative then op.precedence + 1 else op.precedence := by
      cases op <;> decide
    rw [Expr.pieces_binary]
    exact (Opens.slot _ (left.opens n xs · (identsIn_left hxs)) rank_of_bare_or hmin).append
      (noColon_spaced (by cases op <;> exact readSym_other _))
  | .assign op target value, _, hxs => by
    have hxs : identsIn (target.visits ++ value.visits) ⊆ xs := hxs
    exact (target.opens n xs (identsIn_left hxs)).append
      (noColon_spaced (by cases op <;> exact readSym_other _))
  | .conditional test yes no, _, hxs => by
    have hxs : identsIn (test.visits ++ yes.visits ++ no.visits) ⊆ xs := hxs
    have htest : Opens xs (parenthesized (test.rank < Rank.conditional + 1) (test.pieces n)) :=
      .slot (Rank.conditional + 1) (test.opens n xs · (identsIn_left (identsIn_left hxs)))
        rank_of_bare
    exact htest.append_append (noColon_spaced (readSym_other _))
  | .call callee args isOptional, _, hxs => by
    have hxs : identsIn (callee.visits ++ exprsVisits args) ⊆ xs := hxs
    have hcallee : Opens xs (parenthesized (callee.rank < Rank.call) (callee.pieces n)) :=
      .slot Rank.call (callee.opens n xs · (identsIn_left hxs)) rank_of_bare
    exact hcallee.append_append (by cases isOptional <;> exact readSym_other _)
  | .member owner name isOptional, _, hxs => by
    have hxs : identsIn (owner.visits ++ [.name name]) ⊆ xs := hxs
    have howner : Opens xs (parenthesized (owner.rank < Rank.call || owner.isNumber) (owner.pieces n)) :=
      .slot Rank.call (owner.opens n xs · (identsIn_left hxs)) fun h =>
        rank_of_bare (Bool.or_eq_false_iff.mp h).1
    exact howner.append (by cases isOptional <;> exact readSym_other _)
  | .index owner key isOptional, _, hxs => by
    have hxs : identsIn (owner.visits ++ key.visits) ⊆ xs := hxs
    have howner : Opens xs (parenthesized (owner.rank < Rank.call || owner.isNumber) (owner.pieces n)) :=
      .slot Rank.call (owner.opens n xs · (identsIn_left hxs)) fun h =>
        rank_of_bare (Bool.or_eq_false_iff.mp h).1
    exact howner.append_append (by cases isOptional <;> exact readSym_other _)
  | .sequence [], h, _ => absurd rfl h
  | .sequence (e :: es), _, hxs => by
    have hxs : identsIn (e.visits ++ exprsVisits es) ⊆ xs := hxs
    have he : Opens xs (parenthesized (e.rank < Rank.assign) (e.pieces n)) :=
      .slot Rank.assign (e.opens n xs · (identsIn_left hxs)) rank_of_bare
    cases es with
    | nil => exact he
    | cons e' es => exact he.append (readSym_other _)

theorem Pattern.opens (n : Nat) (xs : List Ident) : ∀ p : Pattern, identsIn p.visits ⊆ xs →
    Opens xs (p.pieces n)
  | .ident x, hxs => .word (hxs List.mem_cons_self) rfl
  | .expr e, hxs => Opens.slot Rank.call (e.opens n xs · hxs) rank_of_bare
  | .object properties rest, _ => by
    change Opens xs (bracedNames (patternPropertiesPieces n properties ++ restPieces n rest))
    cases patternPropertiesPieces n properties ++ restPieces n rest <;> exact opens_mark _
  | .array _ _, _ => opens_mark _

end

/-- A piece that an expression starts with opens no other statement than a block, if names are
names. -/
theorem Piece.Leads.opening {xs : List Ident} {p : Piece} (h : p.Leads xs)
    (hxs : ∀ x ∈ xs, isStrictName x.name = true) :
    p.token? ≠ some (.symbol "else")
      ∧ (p = .sym "\x7b" ∨ p.opening = .other ∨ ∃ text, p.opening = .word text ∧ p.isWord = true) := by
  have helse : Token.symbol "else" = .word "else" := by decide +kernel
  have hstarts : ∀ text ∈ expressionStarts, text ≠ "else"
      ∧ (text = "\x7b" ∨ (Piece.sym text).opening = .other ∨ (Piece.sym text).isWord = true
        ∧ (Piece.sym text).opening = .word text) := by decide +kernel
  cases p with
  | sym text =>
    obtain ⟨hne, hbrace | hother | ⟨hword, hopening⟩⟩ := hstarts text h
    · exact ⟨symbol_ne hne, .inl (congrArg _ hbrace)⟩
    · exact ⟨symbol_ne hne, .inr (.inl hother)⟩
    · exact ⟨symbol_ne hne, .inr (.inr ⟨text, hopening, hword⟩)⟩
  | ident x =>
    have hx := hxs x h
    refine ⟨fun htoken => ?_, .inr (.inr ⟨x.name, opening_of_isStrictName rfl hx, rfl⟩)⟩
    rw [helse] at htoken
    rw [Token.word.inj (Option.some.inj htoken)] at hx
    exact absurd hx (by decide +kernel)
  | number _ | string _ | regex _ _ =>
    rw [helse]
    exact ⟨by simp [token?], .inr (.inl rfl)⟩
  | name _ | chunk _ | space | line _ => exact h.elim

end RegisterForm
