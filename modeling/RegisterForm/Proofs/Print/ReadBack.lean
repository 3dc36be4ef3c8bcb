import RegisterForm.Proofs.Print.Grammar
/-!
# Operator expressions read back

What an operator expression prints is derived by the grammar, whatever rank its slot asks for,
and the tree of the derivation is the expression, parentheses aside.
-/
namespace RegisterForm

/-! ## Operator expressions -/

mutual

/-- Expressions made of operators, properties, calls and constructions over names and numbers. -/
inductive Expr.IsOperator : Expr → Prop
  | ident {x} : isVariableName x.name = true → Expr.IsOperator (.ident x)
  | number {source} : isNumericLiteral source = true → Expr.IsOperator (.literal (.number source))
  | this : Expr.IsOperator .this
  | paren {inner} : inner.IsOperator → Expr.IsOperator (.paren inner)
  | unary {op arg} : arg.IsOperator → Expr.IsOperator (.unary op arg)
  | await {arg} : arg.IsOperator → Expr.IsOperator (.await arg)
  | update {op isBefore arg} : arg.isSimpleTarget = true → arg.IsOperator →
      Expr.IsOperator (.update op isBefore arg)
  | binary {op left right} : left.IsOperator → right.IsOperator →
      Expr.IsOperator (.binary op left right)
  | conditional {test yes no} : test.IsOperator → yes.IsOperator → no.IsOperator →
      Expr.IsOperator (.conditional test yes no)
  | assignIdent {op x value} : isVariableName x.name = true → value.IsOperator →
      Expr.IsOperator (.assign op (.ident x) value)
  | assign {op target value} : target.isSimpleTarget = true → target.IsOperator →
      value.IsOperator → Expr.IsOperator (.assign op (.expr target) value)
  | sequence {exprs} : 2 ≤ exprs.length → AreOperators exprs → Expr.IsOperator (.sequence exprs)
  | call {callee args} : callee.IsOperator → AreOperators args → Expr.IsOperator (.call callee args false)
  | newBare {callee} : callee.IsOperator → Expr.IsOperator (.newBare callee)
  | newCall {callee args} : callee.IsOperator → AreOperators args →
      Expr.IsOperator (.newCall callee args)
  | member {owner name} : owner.IsOperator → Text.isIdentifierName name = true →
      Expr.IsOperator (.member owner name false)
  | index {owner key} : owner.IsOperator → key.IsOperator → Expr.IsOperator (.index owner key false)

inductive AreOperators : List Expr → Prop
  | nil : AreOperators []
  | cons {e es} : e.IsOperator → AreOperators es → AreOperators (e :: es)

end

/-! ## Pieces and their tokens -/

@[simp] theorem tokens_nil : tokens [] = [] := rfl

@[simp] theorem tokens_append (ps qs : List Piece) : tokens (ps ++ qs) = tokens ps ++ tokens qs :=
  List.filterMap_append

@[simp] theorem tokens_ident (x : Ident) (ps : List Piece) :
    tokens (.ident x :: ps) = .word x.name :: tokens ps := rfl

@[simp] theorem tokens_name (text : String) (ps : List Piece) :
    tokens (.name text :: ps) = .word text :: tokens ps := rfl

@[simp] theorem tokens_number (source : String) (ps : List Piece) :
    tokens (.number source :: ps) = .number source :: tokens ps := rfl

@[simp] theorem tokens_sym (text : String) (ps : List Piece) :
    tokens (.sym text :: ps) = .symbol text :: tokens ps := rfl

@[simp] theorem tokens_space (ps : List Piece) : tokens (.space :: ps) = tokens ps := rfl

/-- Pieces that a nonterminal derives, with an expression as their tree. -/
def ParsesAs (s : Nonterminal) (pieces : List Piece) (e : Expr) : Prop :=
  ∃ tree, Derives s (tokens pieces) tree ∧ tree.bare = e.bare

/-- Pieces that can stand in a slot of a rank, with an expression as their tree. -/
def FitsIn (rank : Nat) (pieces : List Piece) (e : Expr) : Prop :=
  ∃ s ∈ Nonterminal.slots rank, ParsesAs s pieces e

open Nonterminal

section Slots

variable {s inner : Nonterminal} {pieces : List Piece} {e : Expr} {rank : Nat}

theorem ParsesAs.unit (h : ParsesAs inner pieces e) (hs : inner ∈ s.units) :
    ParsesAs s pieces e := by
  obtain ⟨tree, ht, hb⟩ := h
  exact ⟨tree, .unit hs ht, hb⟩

/-- A slot derives, in at most two steps, what a slot of the next rank derives. -/
theorem slots_succ (rank : Nat) : ∀ s ∈ slots (rank + 1), ∃ outer ∈ slots rank,
    s = outer ∨ s ∈ outer.units ∨ ∃ middle ∈ outer.units, s ∈ middle.units := by
  by_cases h : rank < 19
  · revert rank
    decide
  · have hlast : ∀ r, 19 ≤ r → slots r = [primary] := by
      intro r hr
      unfold slots
      split <;> first | omega | rfl
    intro s hs
    rw [hlast _ (by omega)] at hs
    exact ⟨s, by rwa [hlast _ (by omega)], .inl rfl⟩

theorem FitsIn.pred (h : FitsIn (rank + 1) pieces e) : FitsIn rank pieces e := by
  obtain ⟨s, hs, hp⟩ := h
  obtain ⟨outer, hout, rfl | hunit | ⟨middle, hmid, hunit⟩⟩ := slots_succ rank s hs
  · exact ⟨s, hout, hp⟩
  · exact ⟨outer, hout, hp.unit hunit⟩
  · exact ⟨outer, hout, (hp.unit hunit).unit hmid⟩

theorem FitsIn.loosen {min : Nat} (h : FitsIn rank pieces e) (hle : min ≤ rank) :
    FitsIn min pieces e := by
  induction rank, hle using Nat.le_induction with
  | base => exact h
  | succ rank _ ih => exact ih h.pred

theorem ParsesAs.fitsIn (h : ParsesAs primary pieces e) (rank : Nat) : FitsIn rank pieces e := by
  by_cases hr : rank ≤ 19
  · apply FitsIn.loosen ?_ hr
    exact ⟨primary, by decide, h⟩
  · have hslots : slots rank = [primary] := by
      unfold slots
      split <;> first | omega | rfl
    exact ⟨primary, by rw [hslots]; decide, h⟩

end Slots

/-- The nonterminal that derives an expression as it prints without parentheses around it. -/
def Expr.nonterminal : Expr → Nonterminal
  | sequence _ => Nonterminal.expression
  | assign _ _ _ => Nonterminal.assignment
  | conditional _ _ _ => Nonterminal.conditional
  | binary op _ _ => op.production.result
  | unary _ _ | await _ => Nonterminal.unary
  | update _ _ _ => Nonterminal.update
  | newBare _ => Nonterminal.construct
  | newCall _ _ => Nonterminal.member
  | call _ _ _ => Nonterminal.call
  | member owner _ _ | index owner _ _ =>
    if owner.nonterminal = Nonterminal.call then Nonterminal.call else Nonterminal.member
  | _ => Nonterminal.primary

theorem BinaryOp.production_slot (op : BinaryOp) :
    ∃ s ∈ slots op.precedence, op.production.result = s ∨ op.production.result ∈ s.units := by
  cases op <;> decide

theorem memberOrCall (owner : Expr) :
    (if owner.nonterminal = call then call else member) = member
      ∨ (if owner.nonterminal = call then call else member) = call := by
  by_cases h : owner.nonterminal = call
  · exact .inr (if_pos h)
  · exact .inl (if_neg h)

theorem memberOrCall_slot (owner : Expr) : ∃ s ∈ slots Rank.call,
    (if owner.nonterminal = call then call else member) = s
      ∨ (if owner.nonterminal = call then call else member) ∈ s.units := by
  obtain h | h := memberOrCall owner
  · exact ⟨_, .head _, .inl h⟩
  · exact ⟨_, .tail _ (.head _), .inl h⟩

namespace Expr.IsOperator

variable {e : Expr} {pieces : List Piece}

/-- The nonterminal of an expression stands, up to one step, in a slot of its rank. -/
theorem nonterminal_slot (he : e.IsOperator) :
    ∃ s ∈ slots e.rank, e.nonterminal = s ∨ e.nonterminal ∈ s.units := by
  cases he with
  | @binary op left right => exact op.production_slot
  | @update op isBefore arg =>
    cases isBefore with
    | true => exact ⟨_, .head _, .inr (.head _)⟩
    | false => exact ⟨_, .head _, .inl rfl⟩
  | @member owner name => exact memberOrCall_slot owner
  | @index owner key => exact memberOrCall_slot owner
  | newBare => exact ⟨_, .head _, .inr (.head _)⟩
  | call => exact ⟨_, .tail _ (.head _), .inl rfl⟩
  | _ => exact ⟨_, .head _, .inl rfl⟩

theorem fitsIn (he : e.IsOperator) (h : ParsesAs e.nonterminal pieces e) {min : Nat}
    (hmin : min ≤ e.rank) : FitsIn min pieces e := by
  apply FitsIn.loosen ?_ hmin
  obtain ⟨s, hs, heq | hunit⟩ := he.nonterminal_slot
  · exact ⟨s, hs, heq ▸ h⟩
  · exact ⟨s, hs, h.unit hunit⟩

/-- An expression fits a slot as it is where its rank allows, and in parentheses anywhere. -/
theorem fitsIn_parenthesized (he : e.IsOperator) (h : ParsesAs e.nonterminal pieces e)
    {needed : Bool} {min : Nat} (hn : needed = false → min ≤ e.rank) :
    FitsIn min (parenthesized needed pieces) e := by
  cases needed with
  | false => exact he.fitsIn h (hn rfl)
  | true =>
    obtain ⟨s, hs, tree, ht, hb⟩ := he.fitsIn h (Nat.zero_le _)
    have hexpr : Derives Nonterminal.expression (tokens pieces) tree := by
      rw [slots, List.mem_singleton] at hs
      exact hs ▸ ht
    apply ParsesAs.fitsIn
    refine ⟨.paren tree, ?_, hb⟩
    simpa [parenthesized, enclosed] using Derives.paren hexpr

theorem slot (he : e.IsOperator) (h : ParsesAs e.nonterminal pieces e) (min : Nat) :
    FitsIn min (parenthesized (e.rank < min) pieces) e :=
  he.fitsIn_parenthesized h fun hn => by simpa using hn

end Expr.IsOperator

/-! ## Operands of binary operators -/

theorem FitsIn.parsesAs {s : Nonterminal} {pieces : List Piece} {e : Expr} {rank : Nat}
    (h : FitsIn rank pieces e) (hs : slots rank = [s]) : ParsesAs s pieces e := by
  obtain ⟨s', hs', hp⟩ := h
  rw [hs, List.mem_singleton] at hs'
  exact hs' ▸ hp

namespace BinaryOp

/-- The loosest rank whose slot holds nothing but left operands of an operator. -/
def leftRank : BinaryOp → Nat
  | exp => 16
  | or => 5
  | nullish => 6
  | op => op.precedence

/-- The loosest rank whose slot holds nothing but right operands of an operator. -/
def rightRank : BinaryOp → Nat
  | exp => 14
  | nullish => 6
  | op => op.precedence + 1

variable {pieces : List Piece} {e : Expr}

theorem parsesAs_left (op : BinaryOp) (h : FitsIn op.leftRank pieces e) :
    ParsesAs op.production.left pieces e := by
  have hunits : ∀ s ∈ slots op.leftRank, s = op.production.left ∨ s ∈ op.production.left.units := by
    cases op <;> decide
  obtain ⟨s, hs, hp⟩ := h
  obtain rfl | hunit := hunits s hs
  · exact hp
  · exact hp.unit hunit

theorem parsesAs_right (op : BinaryOp) (h : FitsIn op.rightRank pieces e) :
    ParsesAs op.production.right pieces e := by
  apply h.parsesAs
  cases op <;> rfl

/-- Between a conditional and a unary expression only binary ones have their ranks. -/
theorem exists_of_rank (h : 4 ≤ e.rank) (h' : e.rank ≤ 14) : ∃ op l r, e = .binary op l r := by
  cases e with
  | binary op l r => exact ⟨op, l, r, rfl⟩
  | update op isBefore arg => cases isBefore <;> exact absurd h' (by simp only [Expr.rank]; decide)
  | sequence | yield | arrow | assign | spread | conditional =>
    exact absurd h (by simp only [Expr.rank]; decide)
  | _ => exact absurd h' (by simp only [Expr.rank]; decide)

/-- A left operand that prints without parentheses is one that the grammar allows there. What
its rank does not tell is a prefix update before the power operator, and a chain of one and
the same logical operator. -/
theorem left_allowed {op : BinaryOp} (he : e.IsOperator) (hc : e.clashesWith op = false)
    (hu : op = exp → e.isUnaryLike = false)
    (hr : (if op.isRightAssociative then op.precedence + 1 else op.precedence) ≤ e.rank) :
    op.leftRank ≤ e.rank ∨ e.nonterminal = op.production.left
      ∨ e.nonterminal ∈ op.production.left.units := by
  by_cases hleft : op.leftRank ≤ e.rank
  · exact .inl hleft
  · right
    cases op with
    | exp =>
      have hu := hu rfl
      have hlow : e.rank = 15 := Nat.le_antisymm (Nat.le_of_lt_succ (Nat.not_le.mp hleft)) hr
      cases he with
      | @update op isBefore arg => exact .inl rfl
      | @binary op l r => cases op <;> cases hlow
      | unary | await => cases hu
      | _ => cases hlow
    | or =>
      have hlow : e.rank = 4 := Nat.le_antisymm (Nat.le_of_lt_succ (Nat.not_le.mp hleft)) hr
      obtain ⟨op, l, r, rfl⟩ := exists_of_rank hlow.ge (hlow.le.trans (by decide))
      cases op with
      | or => exact .inl rfl
      | nullish => cases hc
      | _ => cases hlow
    | nullish =>
      have hhigh : e.rank ≤ 5 := Nat.le_of_lt_succ (Nat.not_le.mp hleft)
      obtain ⟨op, l, r, rfl⟩ := exists_of_rank hr (hhigh.trans (by decide))
      cases op with
      | nullish => exact .inr (show nullish.production.result ∈ _ by decide)
      | or | and => cases hc
      | _ => exact absurd hhigh (by simp only [Expr.rank]; decide)
    | _ => exact absurd hr hleft

theorem right_allowed {op : BinaryOp} (hc : e.clashesWith op = false)
    (hr : (if op.isRightAssociative then op.precedence else op.precedence + 1) ≤ e.rank) :
    op.rightRank ≤ e.rank := by
  cases op with
  | nullish =>
    have hlow : 5 ≤ e.rank := hr
    by_cases hand : e.rank = 5
    · obtain ⟨op, l, r, rfl⟩ := exists_of_rank (Nat.le_of_succ_le hlow) (hand.le.trans (by decide))
      cases op with
      | and => cases hc
      | _ => cases hand
    · exact Nat.lt_of_le_of_ne hlow (Ne.symm hand)
  | _ => exact hr

end BinaryOp

/-! ## Derivations of what is printed -/

theorem symbol_this : Token.symbol "this" = .word "this" := by decide

theorem symbol_new : Token.symbol "new" = .word "new" := by decide

theorem symbol_await : Token.symbol "await" = .word "await" := by decide

namespace Expr

variable {e : Expr} {pieces : List Piece}

theorem IsOperator.nonterminal_of_rank (he : e.IsOperator) (hr : Rank.call ≤ e.rank) :
    e.nonterminal = Nonterminal.call ∨ e.nonterminal = Nonterminal.member
      ∨ e.nonterminal = Nonterminal.primary := by
  cases he with
  | @member owner name => exact (memberOrCall owner).symm.imp_right .inl
  | @index owner key => exact (memberOrCall owner).symm.imp_right .inl
  | @binary op left right => cases op <;> exact absurd hr (by simp only [rank]; decide)
  | @update op isBefore arg => cases isBefore <;> exact absurd hr (by simp only [rank]; decide)
  | ident | number | this | paren => exact .inr (.inr rfl)
  | call => exact .inl rfl
  | newCall => exact .inr (.inl rfl)
  | _ => exact absurd hr (by simp only [rank]; decide)

theorem IsOperator.rank_of_call (he : e.IsOperator) (h : e.nonterminal = Nonterminal.call) :
    e.rank = Rank.call ∧ e.isNumber = false := by
  cases he with
  | @binary op left right => cases op <;> cases h
  | call | member | index => exact ⟨rfl, rfl⟩
  | _ => cases h

/-- What stands before a dot or a bracket. -/
theorem IsOperator.owner (he : e.IsOperator) (h : ParsesAs e.nonterminal pieces e) :
    ParsesAs (if e.nonterminal = Nonterminal.call then Nonterminal.call else Nonterminal.member)
      (parenthesized (e.rank < Rank.call || e.isNumber) pieces) e := by
  by_cases hcall : e.nonterminal = Nonterminal.call
  · obtain ⟨hrank, hnumber⟩ := he.rank_of_call hcall
    rw [if_pos hcall, hrank, hnumber]
    exact hcall ▸ h
  · rw [if_neg hcall]
    cases hneeded : decide (e.rank < Rank.call) || e.isNumber with
    | true =>
      have hfits : FitsIn 19 (parenthesized true pieces) e := he.fitsIn_parenthesized h (by simp)
      have hprimary := hfits.parsesAs rfl
      exact hprimary.unit (by decide)
    | false =>
      rw [Bool.or_eq_false_iff, decide_eq_false_iff_not] at hneeded
      obtain hc | hm | hp := he.nonterminal_of_rank (Nat.not_lt.mp hneeded.1)
      · exact absurd hc hcall
      · exact hm ▸ h
      · exact (hp ▸ h : ParsesAs primary pieces e).unit (by decide)

theorem not_call_of_isPlainCallee : ∀ {e : Expr}, e.isPlainCallee = true →
    Rank.call ≤ e.rank ∧ e.nonterminal ≠ Nonterminal.call
  | ident _, _ | this, _ | paren _, _ => ⟨by simp only [rank]; decide, by simp [nonterminal]⟩
  | member owner _ _, h | index owner _ _, h =>
    ⟨Nat.le_refl _, by simp [nonterminal, (not_call_of_isPlainCallee (e := owner) h).2]⟩

/-- What stands after `new`. -/
theorem IsOperator.newCallee (he : e.IsOperator) (h : ParsesAs e.nonterminal pieces e) :
    ParsesAs Nonterminal.member (parenthesized (!e.isPlainCallee) pieces) e := by
  cases hplain : e.isPlainCallee with
  | false =>
    have hfits : FitsIn 19 (parenthesized true pieces) e := he.fitsIn_parenthesized h (by simp)
    have hprimary := hfits.parsesAs rfl
    exact hprimary.unit (by decide)
  | true =>
    obtain ⟨hrank, hcall⟩ := not_call_of_isPlainCallee hplain
    obtain hc | hm | hp := he.nonterminal_of_rank hrank
    · exact absurd hc hcall
    · exact hm ▸ h
    · exact (hp ▸ h : ParsesAs primary pieces e).unit (by decide)

theorem IsOperator.leftOperand (he : e.IsOperator) (h : ParsesAs e.nonterminal pieces e)
    (op : BinaryOp) :
    ParsesAs op.production.left
      (parenthesized (e.clashesWith op || (op == .exp && e.isUnaryLike)
        || e.rank < if op.isRightAssociative then op.precedence + 1 else op.precedence) pieces) e := by
  generalize hneeded : (e.clashesWith op || (op == .exp && e.isUnaryLike)
    || decide (e.rank < if op.isRightAssociative then op.precedence + 1 else op.precedence)) = needed
  cases needed with
  | true => exact op.parsesAs_left (he.fitsIn_parenthesized h (by simp))
  | false =>
    simp only [Bool.or_eq_false_iff, decide_eq_false_iff_not, Nat.not_lt] at hneeded
    obtain ⟨⟨hclash, hunary⟩, hrank⟩ := hneeded
    have hu : op = .exp → e.isUnaryLike = false := by
      rintro rfl
      exact hunary
    obtain hfits | heq | hunit := BinaryOp.left_allowed he hclash hu hrank
    · exact op.parsesAs_left (he.fitsIn h hfits)
    · exact heq ▸ h
    · exact h.unit hunit

theorem IsOperator.rightOperand (he : e.IsOperator) (h : ParsesAs e.nonterminal pieces e)
    (op : BinaryOp) :
    ParsesAs op.production.right
      (parenthesized (e.clashesWith op
        || e.rank < if op.isRightAssociative then op.precedence else op.precedence + 1) pieces) e := by
  apply op.parsesAs_right
  apply he.fitsIn_parenthesized h
  simp only [Bool.or_eq_false_iff, decide_eq_false_iff_not, Nat.not_lt]
  intro hneeded
  exact BinaryOp.right_allowed hneeded.1 hneeded.2

end Expr

/-- What a list of arguments or of expressions in a sequence prints. -/
def ListParsesAs (pieces : List Piece) (es : List Expr) : Prop :=
  ∃ trees, DerivesList (tokens pieces) trees ∧ bareAll trees = bareAll es

theorem Pattern.bare_expr {e e' : Expr} (h : e.bare = e'.bare) :
    (Pattern.expr e).bare = (Pattern.expr e').bare := by
  rw [Pattern.bare, Pattern.bare, h]

theorem bareAll_length (es : List Expr) : (bareAll es).length = es.length := by
  induction es with
  | nil => rfl
  | cons _ es ih => exact congrArg Nat.succ ih

/-- What the arguments of a call print. -/
def ArgumentsParseAs (pieces : List Piece) (args : List Expr) : Prop :=
  ∃ trees, DerivesArguments (tokens pieces) trees ∧ bareAll trees = bareAll args

theorem ArgumentsParseAs.ofList {n : Nat} {args : List Expr}
    (h : args ≠ [] → ListParsesAs (commaSeparated (exprsPieces n Rank.assign args)) args) :
    ArgumentsParseAs (enclosed "(" ")" (commaSeparated (exprsPieces n Rank.assign args))) args := by
  cases args with
  | nil => exact ⟨[], .none, rfl⟩
  | cons e es =>
    obtain ⟨trees, ht, hb⟩ := h (List.cons_ne_nil e es)
    exact ⟨trees, by simpa [enclosed] using DerivesArguments.some ht, hb⟩

/-! ## Derivations by form -/

namespace ParsesAs
variable {s : Nonterminal} {ps qs rs : List Piece} {e e' e'' : Expr} {es : List Expr}

theorem ident {x : Ident} (h : isVariableName x.name = true) :
    ParsesAs primary [.ident x] (.ident x) := ⟨.ident (.synthetic x.name), .ident h, rfl⟩

theorem number {source : String} (h : isNumericLiteral source = true) :
    ParsesAs primary [.number source] (.literal (.number source)) := ⟨_, .number h, rfl⟩

theorem this : ParsesAs primary [.sym "this"] .this := by
  refine ⟨.this, ?_, rfl⟩
  rw [tokens_sym, symbol_this]
  exact .this

theorem paren (h : ParsesAs expression ps e) :
    ParsesAs primary (enclosed "(" ")" ps) (.paren e) := by
  obtain ⟨tree, ht, hb⟩ := h
  refine ⟨.paren tree, ?_, hb⟩
  simpa [enclosed] using Derives.paren ht

theorem unary {op : UnaryOp} {gap : List Piece} (hgap : tokens gap = []) (h : ParsesAs unary ps e) :
    ParsesAs unary (.sym op.text :: gap ++ ps) (.unary op e) := by
  obtain ⟨tree, ht, hb⟩ := h
  refine ⟨.unary op tree, ?_, congrArg (Expr.unary op) hb⟩
  simpa [hgap] using Derives.unary ht

theorem await (h : ParsesAs Nonterminal.unary ps e) :
    ParsesAs Nonterminal.unary (.sym "await" :: .space :: ps) (.await e) := by
  obtain ⟨tree, ht, hb⟩ := h
  refine ⟨.await tree, ?_, congrArg Expr.await hb⟩
  rw [tokens_sym, tokens_space, symbol_await]
  exact .await ht

theorem updateBefore {op : UpdateOp} (h : ParsesAs Nonterminal.unary ps e)
    (hsimple : e.isSimpleTarget = true) :
    ParsesAs update (.sym op.text :: ps) (.update op true e) := by
  obtain ⟨tree, ht, hb⟩ := h
  have htree : tree.isSimpleTarget = true := by rwa [Expr.isSimpleTarget, hb]
  exact ⟨.update op true tree, .updateBefore ht htree, congrArg (Expr.update op true) hb⟩

theorem updateAfter {op : UpdateOp} (h : ParsesAs leftHandSide ps e)
    (hsimple : e.isSimpleTarget = true) :
    ParsesAs update (ps ++ [.sym op.text]) (.update op false e) := by
  obtain ⟨tree, ht, hb⟩ := h
  have htree : tree.isSimpleTarget = true := by rwa [Expr.isSimpleTarget, hb]
  refine ⟨.update op false tree, ?_, congrArg (Expr.update op false) hb⟩
  rw [tokens_append]
  exact .updateAfter ht htree

theorem binary {op : BinaryOp} (hleft : ParsesAs op.production.left ps e)
    (hright : ParsesAs op.production.right qs e') :
    ParsesAs op.production.result (ps ++ .space :: .sym op.text :: .space :: qs)
      (.binary op e e') := by
  obtain ⟨l, hl, hlb⟩ := hleft
  obtain ⟨r, hr, hrb⟩ := hright
  refine ⟨.binary op l r, ?_, congrArg₂ (Expr.binary op) hlb hrb⟩
  rw [tokens_append]
  exact .binary hl hr

theorem conditional (htest : ParsesAs shortCircuit ps e) (hyes : ParsesAs assignment qs e')
    (hno : ParsesAs assignment rs e'') :
    ParsesAs conditional (ps ++ .space :: .sym "?" :: .space :: qs
      ++ .space :: .sym ":" :: .space :: rs) (.conditional e e' e'') := by
  obtain ⟨t, ht, htb⟩ := htest
  obtain ⟨y, hy, hyb⟩ := hyes
  obtain ⟨o, ho, hob⟩ := hno
  have hbare : Expr.conditional t.bare y.bare o.bare = .conditional e.bare e'.bare e''.bare := by
    rw [htb, hyb, hob]
  refine ⟨.conditional t y o, ?_, hbare⟩
  simpa using Derives.conditional ht hy ho

/-- What an assignment to a simple target prints. -/
theorem assign {op : AssignOp} {target : Pattern} (htarget : ParsesAs leftHandSide ps e)
    (hsimple : e.isSimpleTarget = true) (hbare : (Pattern.expr e).bare = target.bare)
    (hvalue : ParsesAs assignment qs e') :
    ParsesAs assignment (ps ++ .space :: .sym op.text :: .space :: qs) (.assign op target e') := by
  obtain ⟨t, ht, htb⟩ := htarget
  obtain ⟨v, hv, hvb⟩ := hvalue
  have htree : t.isSimpleTarget = true := by rwa [Expr.isSimpleTarget, htb]
  have htarget : (Pattern.expr t).bare = target.bare := (Pattern.bare_expr htb).trans hbare
  refine ⟨.assign op (.expr t) v, ?_, congrArg₂ (Expr.assign op) htarget hvb⟩
  rw [tokens_append]
  exact .assign ht htree hv

theorem sequence (hlength : 2 ≤ es.length) (h : ListParsesAs ps es) :
    ParsesAs expression ps (.sequence es) := by
  obtain ⟨trees, ht, hb⟩ := h
  have htwo : 2 ≤ trees.length := by rwa [← bareAll_length, hb, bareAll_length]
  exact ⟨.sequence trees, .sequence htwo ht, congrArg Expr.sequence hb⟩

theorem call (hform : s = Nonterminal.member ∨ s = Nonterminal.call) (h : ParsesAs s ps e)
    (hargs : ArgumentsParseAs qs es) : ParsesAs call (ps ++ qs) (.call e es false) := by
  obtain ⟨c, hc, hcb⟩ := h
  obtain ⟨trees, ht, hb⟩ := hargs
  refine ⟨.call c trees false, ?_, congrArg₂ (Expr.call · · false) hcb hb⟩
  rw [tokens_append]
  exact .call hform hc ht

theorem newBare (h : ParsesAs construct ps e) :
    ParsesAs construct (.sym "new" :: .space :: ps) (.newBare e) := by
  obtain ⟨c, hc, hcb⟩ := h
  refine ⟨.newBare c, ?_, congrArg Expr.newBare hcb⟩
  rw [tokens_sym, tokens_space, symbol_new]
  exact .newBare hc

theorem newCall (h : ParsesAs Nonterminal.member ps e) (hargs : ArgumentsParseAs qs es) :
    ParsesAs Nonterminal.member (.sym "new" :: .space :: ps ++ qs) (.newCall e es) := by
  obtain ⟨c, hc, hcb⟩ := h
  obtain ⟨trees, ht, hb⟩ := hargs
  refine ⟨.newCall c trees, ?_, congrArg₂ Expr.newCall hcb hb⟩
  simpa [symbol_new] using Derives.newCall hc ht

theorem member {name : String} (hform : s = Nonterminal.member ∨ s = Nonterminal.call)
    (h : ParsesAs s ps e) (hname : Text.isIdentifierName name = true) :
    ParsesAs s (ps ++ [.sym ".", .name name]) (.member e name false) := by
  obtain ⟨o, ho, hob⟩ := h
  refine ⟨.member o name false, ?_, congrArg (Expr.member · name false) hob⟩
  rw [tokens_append]
  exact .name hform ho hname

theorem index (hform : s = Nonterminal.member ∨ s = Nonterminal.call) (h : ParsesAs s ps e)
    (hkey : ParsesAs expression qs e') :
    ParsesAs s (ps ++ enclosed "[" "]" qs) (.index e e' false) := by
  obtain ⟨o, ho, hob⟩ := h
  obtain ⟨k, hk, hkb⟩ := hkey
  refine ⟨.index o k false, ?_, congrArg₂ (Expr.index · · false) hob hkb⟩
  simpa [enclosed] using Derives.index hform ho hk

end ParsesAs

theorem ListParsesAs.one {ps : List Piece} {e : Expr} (h : ParsesAs assignment ps e) :
    ListParsesAs ps [e] := by
  obtain ⟨tree, ht, hb⟩ := h
  exact ⟨[tree], .one ht, congrArg ([·]) hb⟩

theorem ListParsesAs.cons {ps qs : List Piece} {e : Expr} {es : List Expr}
    (h : ParsesAs assignment ps e) (hs : ListParsesAs qs es) :
    ListParsesAs (ps ++ .sym "," :: .space :: qs) (e :: es) := by
  obtain ⟨tree, ht, hb⟩ := h
  obtain ⟨trees, hts, hbs⟩ := hs
  refine ⟨tree :: trees, ?_, congrArg₂ List.cons hb hbs⟩
  rw [tokens_append]
  exact .cons ht hts

mutual

/-- What an operator expression prints is derived from its nonterminal. -/
theorem Expr.IsOperator.parses (n : Nat) : ∀ {e : Expr}, e.IsOperator →
    ParsesAs e.nonterminal (e.pieces n) e
  | .ident _, .ident hx => .ident hx
  | .literal (.number _), .number hs => .number hs
  | .this, .this => .this
  | .paren _, .paren hinner =>
    .paren ((hinner.fitsIn (hinner.parses n) (Nat.zero_le _)).parsesAs rfl)
  | .unary op arg, .unary harg => by
    have hgap : tokens (if op.isKeyword || arg.mergesWithSign op then [.space] else []) = [] := by
      split <;> rfl
    exact .unary hgap ((harg.slot (harg.parses n) Rank.unary).parsesAs rfl)
  | .await _, .await harg => .await ((harg.slot (harg.parses n) Rank.unary).parsesAs rfl)
  | .update _ true _, .update htarget harg =>
    .updateBefore ((harg.slot (harg.parses n) Rank.unary).parsesAs rfl) htarget
  | .update _ false _, .update htarget harg =>
    .updateAfter ((harg.slot (harg.parses n) Rank.construct).parsesAs rfl) htarget
  | .binary op _ _, .binary hleft hright => by
    rw [Expr.pieces_binary]
    exact .binary (hleft.leftOperand (hleft.parses n) op) (hright.rightOperand (hright.parses n) op)
  | .conditional _ _ _, .conditional htest hyes hno =>
    .conditional ((htest.slot (htest.parses n) (Rank.conditional + 1)).parsesAs rfl)
      ((hyes.slot (hyes.parses n) Rank.assign).parsesAs rfl)
      ((hno.slot (hno.parses n) Rank.assign).parsesAs rfl)
  | .assign _ (.ident _) _, .assignIdent hx hvalue =>
    .assign (((ParsesAs.ident hx).fitsIn 17).parsesAs rfl) rfl rfl
      ((hvalue.slot (hvalue.parses n) Rank.assign).parsesAs rfl)
  | .assign _ (.expr _) _, .assign hsimple htarget hvalue => by
    have hcallee := htarget.slot (htarget.parses n) Rank.call
    have hconstruct := hcallee.loosen (show 17 ≤ _ by decide)
    exact .assign (hconstruct.parsesAs rfl) hsimple rfl
      ((hvalue.slot (hvalue.parses n) Rank.assign).parsesAs rfl)
  | .sequence exprs, .sequence hlength hexprs => by
    have hne : exprs ≠ [] := by
      rintro rfl
      cases hlength
    exact .sequence hlength (hexprs.parse n hne)
  | .call callee args _, .call hcallee hargs => by
    obtain ⟨s, hs, hc⟩ := hcallee.slot (hcallee.parses n) Rank.call
    have hform : s = Nonterminal.member ∨ s = Nonterminal.call := by simpa [slots, Rank.call] using hs
    have h := ParsesAs.call hform hc (.ofList (hargs.parse n))
    rwa [← List.append_nil (parenthesized _ _)] at h
  | .newBare _, .newBare hcallee =>
    .newBare ((hcallee.newCallee (hcallee.parses n)).unit (by decide))
  | .newCall _ _, .newCall hcallee hargs =>
    .newCall (hcallee.newCallee (hcallee.parses n)) (.ofList (hargs.parse n))
  | .member owner _ _, .member howner hname =>
    .member (memberOrCall owner) (howner.owner (howner.parses n)) hname
  | .index owner key _, .index howner hkey => by
    have hkey := (hkey.fitsIn (hkey.parses n) (Nat.zero_le _)).parsesAs rfl
    have h := ParsesAs.index (memberOrCall owner) (howner.owner (howner.parses n)) hkey
    rwa [← List.append_nil (parenthesized _ _)] at h
termination_by structural e => e

theorem AreOperators.parse (n : Nat) : ∀ {es : List Expr}, AreOperators es → es ≠ [] →
    ListParsesAs (commaSeparated (exprsPieces n Rank.assign es)) es
  | [_], .cons he _, _ => .one ((he.slot (he.parses n) Rank.assign).parsesAs rfl)
  | _ :: _ :: _, .cons he hes, _ =>
    .cons ((he.slot (he.parses n) Rank.assign).parsesAs rfl) (hes.parse n (List.cons_ne_nil _ _))
termination_by structural es => es

end

end RegisterForm
