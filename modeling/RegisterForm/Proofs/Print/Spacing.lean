import RegisterForm.Proofs.Print.ReadBack
/-!
# Tokens kept apart

No two tokens of a printed operator expression run into one another: a sign before an operand
that starts with the same sign is followed by a space, and so is every word before a word.
-/
namespace RegisterForm

namespace Token

/-- Tokens that an expression can end in. -/
def isClosing : Token → Bool
  | .word _ | .number _ => true
  | .punctuator p => [")", "]", "++", "--"].contains p
  | .literal _ => false

/-- Tokens that an expression of at least the rank of a suffix starts with. -/
def isOpening : Token → Bool
  | .word _ | .number _ => true
  | .punctuator p => p == "("
  | .literal _ => false

/-- A punctuator that begins no longer one is not made longer by what follows. -/
theorem lengthens_of_longest {p : String}
    (h : ∀ u ∈ punctuators, (p != u && p.toList.isPrefixOf u.toList) = false) (q : String) :
    lengthens p q = false := by
  rw [lengthens, List.any_eq_false]
  intro u hu
  simp [h u hu]

/-- What the table of punctuators says of the symbols that an operator expression is printed with:
of those behind an operand, of those before one, of signs before signs and updates, of what a tight
operand starts with, of what an operand ends in, and of the dot. -/
theorem symbol_table :
    (∀ q ∈ ["(", ")", "[", "]", ",", "++", "--"], Token.symbol q = .punctuator q ∧ q ≠ "." ∧
      ∀ p ∈ [")", "]", "++", "--"], lengthens p q = false) ∧
    (∀ p ∈ ["(", "[", "++", "--"], Token.symbol p = .punctuator p ∧ p ≠ "." ∧
      ∀ u ∈ punctuators, (p != u && p.toList.isPrefixOf u.toList) = false) ∧
    (∀ op ∈ UnaryOp.all, op.isKeyword = false →
      (Token.symbol op.text = .punctuator op.text ∧ op.text ≠ "." ∧
        lengthens op.text "(" = false) ∧
      (∀ op' ∈ UnaryOp.all, ¬(op = op' ∧ (op = .minus ∨ op = .plus)) →
        (Token.symbol op.text).runsInto (.symbol op'.text) = false) ∧
      ∀ op' ∈ UpdateOp.all, ¬(op = .minus ∧ op' = .decrement) → ¬(op = .plus ∧ op' = .increment) →
        (Token.symbol op.text).runsInto (.symbol op'.text) = false) ∧
    (∀ text ∈ ["(", "this", "new", "await"], (Token.symbol text).isOpening = true) ∧
    (∀ text ∈ [")", "]", "++", "--"], (Token.symbol text).isClosing = true) ∧
    Token.symbol "." = .punctuator "." ∧
      ∀ c ∈ [")", "]"], (Token.symbol c).runsInto (.symbol ".") = false := by
  decide +kernel

theorem runsInto_of_isClosing {t : Token} (ht : t.isClosing = true) {q : String}
    (hq : q ∈ ["(", ")", "[", "]", ",", "++", "--"]) : t.runsInto (.symbol q) = false := by
  obtain ⟨hq', hdot, hpair⟩ := symbol_table.1 q hq
  rw [hq']
  cases t with
  | word text => rfl
  | number source => simpa [runsInto] using hdot
  | punctuator p => exact hpair p (by simpa [isClosing] using ht)
  | literal piece => rfl

/-- Opening brackets and updates run into nothing. -/
theorem runsInto_of_opening {p : String} (hp : p ∈ ["(", "[", "++", "--"]) (u : Token) :
    (Token.symbol p).runsInto u = false := by
  obtain ⟨hp', hdot, hlongest⟩ := symbol_table.2.1 p hp
  rw [hp']
  cases u with
  | word | literal => rfl
  | number source => simpa [runsInto] using hdot
  | punctuator q => exact lengthens_of_longest hlongest q

theorem symbol_unary : ∀ {op : UnaryOp}, op.isKeyword = false →
    Token.symbol op.text = .punctuator op.text ∧ op.text ≠ "." ∧ lengthens op.text "(" = false := by
  intro op hop
  exact (symbol_table.2.2.1 op (by cases op <;> decide) hop).1

theorem runsInto_of_isOpening {op : UnaryOp} (hop : op.isKeyword = false) {u : Token}
    (hu : u.isOpening = true) : (Token.symbol op.text).runsInto u = false := by
  obtain ⟨hsymbol, hdot, hparen⟩ := symbol_unary hop
  rw [hsymbol]
  cases u with
  | word text => rfl
  | number source => simpa [runsInto] using hdot
  | punctuator q =>
    obtain rfl : q = "(" := by simpa [isOpening] using hu
    exact hparen
  | literal piece => rfl

/-- A sign stays alone before another operator, unless the two are signs of one kind. -/
theorem runsInto_of_unary {op op' : UnaryOp} (hop : op.isKeyword = false)
    (h : ¬(op = op' ∧ (op = .minus ∨ op = .plus))) :
    (Token.symbol op.text).runsInto (.symbol op'.text) = false := by
  have hop := symbol_table.2.2.1 op (by cases op <;> decide) hop
  exact hop.2.1 op' (by cases op' <;> decide) h

theorem runsInto_of_update {op : UnaryOp} {op' : UpdateOp} (hop : op.isKeyword = false)
    (h : ¬(op = .minus ∧ op' = .decrement)) (h' : ¬(op = .plus ∧ op' = .increment)) :
    (Token.symbol op.text).runsInto (.symbol op'.text) = false := by
  have hop := symbol_table.2.2.1 op (by cases op <;> decide) hop
  exact hop.2.2 op' (by cases op' <;> decide) h h'

end Token

namespace Piece

theorem space_apart (q : Piece) : Apart .space q := by
  intro t ht
  cases ht

theorem apart_space (p : Piece) : p.Apart .space := by
  intro t _ u hu
  cases hu

theorem sym_apart {text : String} {q : Piece} :
    (sym text).Apart q ↔ ∀ u ∈ q.token?, (Token.symbol text).runsInto u = false := by
  simp [Apart, token?]

theorem apart_sym {text : String} {p : Piece} :
    p.Apart (sym text) ↔ ∀ t ∈ p.token?, t.runsInto (.symbol text) = false := by
  simp [Apart, token?]

end Piece

/-- Pieces kept apart, which end as an expression does. -/
structure WellSpaced (pieces : List Piece) : Prop where
  apart : KeptApart pieces
  closing : ∀ p ∈ pieces.getLast?, ∀ t ∈ p.token?, t.isClosing = true

namespace WellSpaced

variable {ps qs : List Piece} {text : String}

theorem single {p : Piece} (h : ∀ t ∈ p.token?, t.isClosing = true) : WellSpaced [p] := by
  refine ⟨.singleton p, ?_⟩
  intro q hq
  obtain rfl : p = q := by simpa using hq
  exact h

/-- Pieces in a row, where the last of the first is kept apart from the first of the second. -/
theorem append (hp : WellSpaced ps) (hq : WellSpaced qs)
    (hjoin : ∀ p ∈ ps.getLast?, ∀ q ∈ qs.head?, p.Apart q) : WellSpaced (ps ++ qs) := by
  refine ⟨List.IsChain.append hp.apart hq.apart hjoin, ?_⟩
  intro p hlast
  rw [List.getLast?_append] at hlast
  cases hqs : qs.getLast? with
  | none => exact hp.closing p (by simpa [hqs] using hlast)
  | some q => exact hq.closing p (by simpa [hqs] using hlast)

/-- A symbol and a space before pieces. -/
theorem after_space (text : String) (h : WellSpaced ps) :
    WellSpaced (.sym text :: .space :: ps) := by
  refine ⟨?_, ?_⟩
  · apply List.IsChain.cons_cons (Piece.apart_space _)
    apply List.IsChain.cons h.apart
    intro q _
    exact Piece.space_apart q
  · intro p hp
    cases hps : ps.getLast? with
    | none =>
      obtain rfl : ps = [] := by simpa using hps
      obtain rfl : Piece.space = p := by simpa using hp
      intro t ht
      cases ht
    | some q => exact h.closing p (by simpa [List.getLast?_cons, hps] using hp)

/-- Pieces on both sides of a symbol between spaces. -/
theorem spaced (hp : WellSpaced ps) (text : String) (hq : WellSpaced qs) :
    WellSpaced (ps ++ .space :: .sym text :: .space :: qs) := by
  apply hp.append
  · have hspace : WellSpaced [.space] := single fun t ht => by cases ht
    apply hspace.append (hq.after_space text)
    intro p hp q _
    obtain rfl : Piece.space = p := by simpa using hp
    exact q.space_apart
  · intro p _ q hq
    obtain rfl : Piece.space = q := by simpa using hq
    exact p.apart_space

/-- A closing bracket or an update behind pieces. -/
theorem closed (h : WellSpaced ps) (ht : text ∈ [")", "]", "++", "--"]) :
    WellSpaced (ps ++ [.sym text]) := by
  have hsymbol := Token.symbol_table.2.2.2.2.1 text ht
  have hmem : ∀ text ∈ [")", "]", "++", "--"], text ∈ ["(", ")", "[", "]", ",", "++", "--"] := by
    decide
  apply h.append
  · exact single fun t ht' => by simpa [Piece.token?, ← show _ = t by simpa [Piece.token?] using ht'] using hsymbol
  · intro p hp q hq
    obtain rfl : Piece.sym text = q := by simpa using hq
    rw [Piece.apart_sym]
    intro t hpt
    exact Token.runsInto_of_isClosing (h.closing p hp t hpt) (hmem text ht)

/-- An opening bracket or an update before pieces. -/
theorem opened (h : WellSpaced ps) (hne : ps ≠ []) (ht : text ∈ ["(", "[", "++", "--"]) :
    WellSpaced (.sym text :: ps) := by
  refine ⟨?_, ?_⟩
  · apply List.IsChain.cons h.apart
    intro q _
    rw [Piece.sym_apart]
    intro u _
    exact Token.runsInto_of_opening ht u
  · intro p hp
    apply h.closing p
    rwa [List.getLast?_cons_of_ne_nil hne] at hp

end WellSpaced

/-! ## First and last pieces -/

/-- Pieces that start as an operand may directly behind a sign. -/
def OpensQuietly (pieces : List Piece) : Prop :=
  ∃ p ps, pieces = p :: ps ∧ ∀ t ∈ p.token?, t.isOpening = true

theorem OpensQuietly.append {ps : List Piece} (h : OpensQuietly ps) (qs : List Piece) :
    OpensQuietly (ps ++ qs) := by
  obtain ⟨p, ps, rfl, hp⟩ := h
  exact ⟨p, ps ++ qs, rfl, hp⟩

theorem OpensQuietly.of_token {p : Piece} {t : Token} (hp : p.token? = some t)
    (ht : t.isOpening = true) (ps : List Piece) : OpensQuietly (p :: ps) := by
  refine ⟨p, ps, rfl, ?_⟩
  intro u hu
  obtain rfl : t = u := by simpa [hp] using hu
  exact ht

theorem symbol_opens : ∀ text ∈ ["(", "this", "new", "await"],
    (Token.symbol text).isOpening = true :=
  Token.symbol_table.2.2.2.1

/-- An operand in a slot that asks for at least the rank of a suffix. -/
theorem opensQuietly_slot {e : Expr} {needed : Bool} {pieces : List Piece} (min : Nat)
    (hmin : Rank.suffix ≤ min) (hneeded : needed = false → min ≤ e.rank)
    (h : Rank.suffix ≤ e.rank → OpensQuietly pieces) :
    OpensQuietly (parenthesized needed pieces) := by
  cases needed with
  | false => exact h (hmin.trans (hneeded rfl))
  | true => exact .of_token rfl (symbol_opens _ (by decide)) _

/-- What a tight enough operand starts with: a name, a number, a keyword or a parenthesis. -/
theorem Expr.IsOperator.opensQuietly (n : Nat) : ∀ {e : Expr}, e.IsOperator →
    Rank.suffix ≤ e.rank → OpensQuietly (e.pieces n)
  | .ident _, .ident _, _ => .of_token rfl rfl _
  | .literal (.number _), .number _, _ => .of_token rfl rfl _
  | .this, .this, _ => .of_token rfl (symbol_opens _ (by decide)) _
  | .paren _, .paren _, _ => .of_token rfl (symbol_opens _ (by decide)) _
  | .newBare _, .newBare _, _ | .newCall _ _, .newCall _ _, _ =>
    .of_token rfl (symbol_opens _ (by decide)) _
  | .update _ false _, .update _ harg, _ =>
    (opensQuietly_slot Rank.construct (by decide) rank_of_bare (harg.opensQuietly n)).append _
  | .call _ _ _, .call hcallee _, _ =>
    ((opensQuietly_slot Rank.call (by decide) rank_of_bare
      (hcallee.opensQuietly n)).append _).append _
  | .member _ _ _, .member howner _, _ =>
    (opensQuietly_slot Rank.call (by decide) (fun h => rank_of_bare (Bool.or_eq_false_iff.mp h).1)
      (howner.opensQuietly n)).append _
  | .index _ _ _, .index howner _, _ =>
    ((opensQuietly_slot Rank.call (by decide) (fun h => rank_of_bare (Bool.or_eq_false_iff.mp h).1)
      (howner.opensQuietly n)).append _).append _
  | .binary op _ _, .binary _ _, h =>
    absurd h (show ¬ Rank.suffix ≤ op.precedence by cases op <;> decide)
  | .update _ true _, .update _ _, h | .unary _ _, .unary _, h | .await _, .await _, h =>
    absurd h (show ¬ Rank.suffix ≤ Rank.unary by decide)
  | .conditional _ _ _, .conditional _ _ _, h =>
    absurd h (show ¬ Rank.suffix ≤ Rank.conditional by decide)
  | .assign _ (.ident _) _, .assignIdent _ _, h | .assign _ (.expr _) _, .assign _ _ _, h =>
    absurd h (show ¬ Rank.suffix ≤ Rank.assign by decide)
  | .sequence _, .sequence _ _, h => absurd h (show ¬ Rank.suffix ≤ Rank.sequence by decide)
termination_by structural e => e

theorem OpensQuietly.sign_apart {pieces : List Piece} (h : OpensQuietly pieces) {op : UnaryOp}
    (hop : op.isKeyword = false) : ∀ p ∈ pieces.head?, (Piece.sym op.text).Apart p := by
  obtain ⟨p, ps, rfl, hp⟩ := h
  intro q hq
  obtain rfl : p = q := by simpa using hq
  rw [Piece.sym_apart]
  intro u hu
  exact Token.runsInto_of_isOpening hop (hp u hu)

/-- An operand that follows its sign directly does not merge with it. -/
theorem Expr.IsOperator.sign_apart (n : Nat) {op : UnaryOp} {arg : Expr} (harg : arg.IsOperator)
    (hop : op.isKeyword = false) (hmerge : arg.mergesWithSign op = false) :
    ∀ p ∈ (parenthesized (arg.rank < Rank.unary) (arg.pieces n)).head?,
      (Piece.sym op.text).Apart p := by
  by_cases hrank : Rank.unary ≤ arg.rank
  · have hneeded : decide (arg.rank < Rank.unary) = false := by simpa using hrank
    rw [hneeded, parenthesized, if_neg Bool.false_ne_true]
    by_cases hsuffix : Rank.suffix ≤ arg.rank
    · exact (harg.opensQuietly n hsuffix).sign_apart hop
    · have hlow : arg.rank = Rank.unary :=
        Nat.le_antisymm (Nat.le_of_lt_succ (Nat.not_le.mp hsuffix)) hrank
      cases harg with
      | @unary op' arg =>
        intro p hp
        obtain rfl : Piece.sym op'.text = p := Option.some.inj hp
        rw [Piece.sym_apart]
        rintro u hu
        obtain rfl : Token.symbol op'.text = u := by simpa [Piece.token?] using hu
        apply Token.runsInto_of_unary hop
        rintro ⟨rfl, rfl | rfl⟩ <;> cases hmerge
      | @await arg =>
        have hquiet : OpensQuietly ((Expr.await arg).pieces n) :=
          .of_token rfl (symbol_opens _ (by decide)) _
        exact hquiet.sign_apart hop
      | @update op' isBefore arg =>
        cases isBefore with
        | false => cases hlow
        | true =>
          intro p hp
          obtain rfl : Piece.sym op'.text = p := Option.some.inj hp
          rw [Piece.sym_apart]
          rintro u hu
          obtain rfl : Token.symbol op'.text = u := by simpa [Piece.token?] using hu
          apply Token.runsInto_of_update hop
          · rintro ⟨rfl, rfl⟩
            cases hmerge
          · rintro ⟨rfl, rfl⟩
            cases hmerge
      | @binary op' l r => cases op' <;> cases hlow
      | _ => cases hlow
  · have hneeded : decide (arg.rank < Rank.unary) = true := by simpa using hrank
    rw [hneeded]
    have hquiet : OpensQuietly (parenthesized true (arg.pieces n)) :=
      .of_token rfl (symbol_opens _ (by decide)) _
    exact hquiet.sign_apart hop

theorem parenthesized_ne_nil (needed : Bool) {pieces : List Piece} (h : pieces ≠ []) :
    parenthesized needed pieces ≠ [] := by
  cases needed with
  | false => exact h
  | true => simp [parenthesized, enclosed]

theorem Expr.IsOperator.pieces_ne_nil (n : Nat) {e : Expr} (he : e.IsOperator) :
    e.pieces n ≠ [] := by
  cases he with
  | @sequence exprs hlength _ =>
    match exprs, hlength with
    | e₁ :: e₂ :: es, _ => exact List.append_ne_nil_of_right_ne_nil _ (List.cons_ne_nil _ _)
  | @update op isBefore arg =>
    cases isBefore with
    | true => exact List.cons_ne_nil _ _
    | false => exact List.append_ne_nil_of_right_ne_nil _ (List.cons_ne_nil _ _)
  | binary | conditional | assignIdent | assign | call | member | index =>
    exact List.append_ne_nil_of_right_ne_nil _ (List.cons_ne_nil _ _)
  | _ => exact List.cons_ne_nil _ _

/-! ## Spacing of what is printed -/

namespace WellSpaced

variable {ps qs : List Piece} {text : String}

theorem enclosed (h : WellSpaced ps) {o c : String} (ho : o ∈ ["(", "["]) (hc : c ∈ [")", "]"]) :
    WellSpaced (enclosed o c ps) := by
  have hopen : ∀ o ∈ ["(", "["], o ∈ ["(", "[", "++", "--"] := by decide
  have hclose : ∀ c ∈ [")", "]"], c ∈ [")", "]", "++", "--"] := by decide
  exact (h.closed (hclose c hc)).opened (by simp) (hopen o ho)

theorem parenthesized (h : WellSpaced ps) (needed : Bool) :
    WellSpaced (parenthesized needed ps) := by
  cases needed with
  | false => exact h
  | true => exact h.enclosed (by decide) (by decide)

/-- An opening bracket directly behind pieces, with what follows it. -/
theorem append_opened (hp : WellSpaced ps) (hq : WellSpaced (.sym text :: qs))
    (ht : text ∈ ["(", "["]) : WellSpaced (ps ++ .sym text :: qs) := by
  have hmem : ∀ text ∈ ["(", "["], text ∈ ["(", ")", "[", "]", ",", "++", "--"] := by decide
  apply hp.append hq
  intro p hlast q hq
  obtain rfl : Piece.sym text = q := by simpa using hq
  rw [Piece.apart_sym]
  intro t hpt
  exact Token.runsInto_of_isClosing (hp.closing p hlast t hpt) (hmem text ht)

theorem comma (hp : WellSpaced ps) (hq : WellSpaced qs) :
    WellSpaced (ps ++ .sym "," :: .space :: qs) := by
  apply hp.append (hq.after_space ",")
  intro p hlast q hq
  obtain rfl : Piece.sym "," = q := by simpa using hq
  rw [Piece.apart_sym]
  intro t hpt
  exact Token.runsInto_of_isClosing (hp.closing p hlast t hpt) (by decide)

end WellSpaced

theorem symbol_dot : Token.symbol "." = .punctuator "." :=
  Token.symbol_table.2.2.2.2.2.1

/-- What stands before a dot does not end in a number. -/
theorem Expr.IsOperator.dot_apart (n : Nat) {owner : Expr} (howner : owner.IsOperator) :
    ∀ p ∈ (parenthesized (owner.rank < Rank.call || owner.isNumber) (owner.pieces n)).getLast?,
      p.Apart (.sym ".") := by
  have hword : ∀ text, (Token.word text).runsInto (.symbol ".") = false := by
    intro text
    rw [symbol_dot]
    rfl
  have hbracket := Token.symbol_table.2.2.2.2.2.2
  have hlast : ∀ (ps : List Piece) {p : Piece} {t : Token}, p.token? = some t →
      t.runsInto (.symbol ".") = false → ∀ q ∈ (ps ++ [p]).getLast?, q.Apart (.sym ".") := by
    intro ps p t hp ht q hq
    obtain rfl : p = q := by simpa using hq
    rw [Piece.apart_sym]
    intro u hu
    obtain rfl : t = u := by simpa [hp] using hu
    exact ht
  have hclosed : ∀ (ps inner : List Piece) {o c : String}, c ∈ [")", "]"] →
      ∀ q ∈ (ps ++ enclosed o c inner).getLast?, q.Apart (.sym ".") := by
    intro ps inner o c hc
    rw [enclosed, ← List.append_assoc]
    exact hlast _ rfl (hbracket c hc)
  cases hneeded : decide (owner.rank < Rank.call) || owner.isNumber with
  | true => exact hlast (.sym "(" :: owner.pieces n) rfl (hbracket ")" (by decide))
  | false =>
    rw [Bool.or_eq_false_iff, decide_eq_false_iff_not, Nat.not_lt] at hneeded
    obtain ⟨hrank, hnumber⟩ := hneeded
    rw [parenthesized, if_neg Bool.false_ne_true]
    cases howner with
    | @ident x => exact hlast [] rfl (hword x.name)
    | this => exact hlast [] (congrArg some symbol_this) (hword "this")
    | number => cases hnumber
    | paren => exact hclosed [] _ (by decide)
    | index | call | newCall => exact hclosed _ _ (by decide)
    | @member owner name =>
      change ∀ p ∈ (parenthesized _ _ ++ [Piece.sym ".", .name name]).getLast?, _
      rw [← List.singleton_append, ← List.append_assoc]
      exact hlast _ rfl (hword name)
    | @binary op' l r => cases op' <;> exact absurd hrank (by simp only [Expr.rank]; decide)
    | @update op' isBefore arg =>
      cases isBefore <;> exact absurd hrank (by simp only [Expr.rank]; decide)
    | _ => exact absurd hrank (by simp only [Expr.rank]; decide)

mutual

/-- No two tokens of what an operator expression prints run into one another. -/
theorem Expr.IsOperator.wellSpaced (n : Nat) : ∀ {e : Expr}, e.IsOperator →
    WellSpaced (e.pieces n)
  | .ident x, .ident _ => by
    apply WellSpaced.single
    rintro _ ⟨⟩
    rfl
  | .literal (.number source), .number _ => by
    apply WellSpaced.single
    rintro _ ⟨⟩
    rfl
  | .this, .this => by
    apply WellSpaced.single
    rintro _ ⟨⟩
    rw [symbol_this]
    rfl
  | .paren inner, .paren hinner => (hinner.wellSpaced n).enclosed (by decide) (by decide)
  | .unary op arg, .unary harg => by
    have hslot := (harg.wellSpaced n).parenthesized (arg.rank < Rank.unary)
    change WellSpaced (.sym op.text ::
      (if op.isKeyword || arg.mergesWithSign op then [.space] else []) ++ parenthesized _ _)
    by_cases hspace : (op.isKeyword || arg.mergesWithSign op) = true
    · rw [if_pos hspace]
      exact hslot.after_space op.text
    · rw [if_neg hspace]
      simp only [Bool.or_eq_true, not_or, Bool.not_eq_true] at hspace
      refine ⟨List.IsChain.cons hslot.apart (harg.sign_apart n hspace.1 hspace.2), ?_⟩
      intro p hp
      apply hslot.closing p
      rwa [List.cons_append, List.nil_append,
        List.getLast?_cons_of_ne_nil (parenthesized_ne_nil _ (harg.pieces_ne_nil n))] at hp
  | .await arg, .await harg => ((harg.wellSpaced n).parenthesized _).after_space "await"
  | .update op true arg, .update _ harg => by
    have hmem : op.text ∈ ["(", "[", "++", "--"] := by cases op <;> decide
    exact ((harg.wellSpaced n).parenthesized _).opened
      (parenthesized_ne_nil _ (harg.pieces_ne_nil n)) hmem
  | .update op false arg, .update _ harg => by
    have hmem : op.text ∈ [")", "]", "++", "--"] := by cases op <;> decide
    exact ((harg.wellSpaced n).parenthesized _).closed hmem
  | .binary op left right, .binary hleft hright => by
    rw [Expr.pieces_binary]
    exact ((hleft.wellSpaced n).parenthesized _).spaced op.text ((hright.wellSpaced n).parenthesized _)
  | .conditional test yes no, .conditional htest hyes hno => by
    have htest := (htest.wellSpaced n).parenthesized (test.rank < Rank.conditional + 1)
    have hyes := (hyes.wellSpaced n).parenthesized (yes.rank < Rank.assign)
    have hno := (hno.wellSpaced n).parenthesized (no.rank < Rank.assign)
    exact (htest.spaced "?" hyes).spaced ":" hno
  | .assign op (.ident x) value, .assignIdent hx hvalue => by
    have hvalue := (hvalue.wellSpaced n).parenthesized (value.rank < Rank.assign)
    have hident : WellSpaced [.ident x] := WellSpaced.single (by rintro _ ⟨⟩; rfl)
    exact hident.spaced op.text hvalue
  | .assign op (.expr target) value, .assign _ htarget hvalue => by
    have hvalue := (hvalue.wellSpaced n).parenthesized (value.rank < Rank.assign)
    exact ((htarget.wellSpaced n).parenthesized _).spaced op.text hvalue
  | .sequence exprs, .sequence _ hexprs => hexprs.wellSpaced n
  | .call callee args _, .call hcallee hargs => by
    have hargs := (hargs.wellSpaced n).enclosed (o := "(") (c := ")") (by decide) (by decide)
    change WellSpaced (parenthesized _ _ ++ [] ++ enclosed _ _ _)
    rw [List.append_nil]
    exact ((hcallee.wellSpaced n).parenthesized _).append_opened hargs (by decide)
  | .newBare callee, .newBare hcallee => ((hcallee.wellSpaced n).parenthesized _).after_space "new"
  | .newCall callee args, .newCall hcallee hargs => by
    have hargs := (hargs.wellSpaced n).enclosed (o := "(") (c := ")") (by decide) (by decide)
    exact (((hcallee.wellSpaced n).parenthesized _).append_opened hargs (by decide)).after_space "new"
  | .member owner name _, .member howner _ => by
    have hname : WellSpaced [.sym ".", .name name] := by
      refine ⟨List.IsChain.cons_cons ?_ (.singleton _), by rintro _ ⟨⟩ _ ⟨⟩; rfl⟩
      rw [Piece.sym_apart, symbol_dot]
      rintro _ ⟨⟩
      rfl
    apply ((howner.wellSpaced n).parenthesized _).append hname
    intro p hp q hq
    obtain rfl : Piece.sym "." = q := by simpa using hq
    exact howner.dot_apart n p hp
  | .index owner key _, .index howner hkey => by
    have hkey := (hkey.wellSpaced n).enclosed (o := "[") (c := "]") (by decide) (by decide)
    change WellSpaced (parenthesized _ _ ++ [] ++ enclosed _ _ _)
    rw [List.append_nil]
    exact ((howner.wellSpaced n).parenthesized _).append_opened hkey (by decide)
termination_by structural e => e

theorem AreOperators.wellSpaced (n : Nat) : ∀ {es : List Expr}, AreOperators es →
    WellSpaced (commaSeparated (exprsPieces n Rank.assign es))
  | [], .nil => ⟨.nil, fun _ h => by cases h⟩
  | [e], .cons he _ => (he.wellSpaced n).parenthesized _
  | e :: e' :: es, .cons he hes => ((he.wellSpaced n).parenthesized _).comma (hes.wellSpaced n)
termination_by structural es => es

end

/-- An operator expression reads back from its print: in a slot of any rank the grammar derives
its tokens, with the expression as the tree but for parentheses, and no two of the tokens run
into one another. -/
theorem Expr.IsOperator.reads_back {e : Expr} (he : e.IsOperator) (n : Nat) (min : Rank) :
    FitsIn min (parenthesized (e.rank < min) (e.pieces n)) e
      ∧ KeptApart (parenthesized (e.rank < min) (e.pieces n)) :=
  ⟨he.slot (he.parses n) min, ((he.wellSpaced n).parenthesized _).apart⟩

theorem reads_back_signs : ∃ e : Expr, e.print = "(-a) ** (b ?? (c && - --d))" ∧ e.IsOperator
    ∧ FitsIn 0 (parenthesized (e.rank < 0) (e.pieces 0)) e
    ∧ KeptApart (parenthesized (e.rank < 0) (e.pieces 0)) := by
  let x (name : String) : Expr := .ident (.synthetic name)
  have hx : ∀ name ∈ ["a", "b", "c", "d"], (x name).IsOperator := by
    intro name hname
    apply Expr.IsOperator.ident
    revert name
    decide +kernel
  have he : (Expr.binary .exp (.unary .minus (x "a")) (.binary .nullish (x "b")
      (.binary .and (x "c") (.unary .minus (.update .decrement true (x "d")))))).IsOperator :=
    .binary (.unary (hx "a" (by decide))) (.binary (hx "b" (by decide))
      (.binary (hx "c" (by decide)) (.unary (.update rfl (hx "d" (by decide))))))
  exact ⟨_, by decide +kernel, he, he.reads_back 0 0⟩

end RegisterForm
