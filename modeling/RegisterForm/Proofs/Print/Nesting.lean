import RegisterForm.Print.Tree
/-!
# Brackets of printed code

Printed code closes every bracket that it opens. So what an expression shows outside of all its
brackets can be told from its tree: the operators `in`, and the commas and semicolons, which
divide whatever they stand in.
-/
namespace RegisterForm

def opensBracket (text : String) : Bool := ["(", "[", "\x7b", "$\x7b"].contains text

def closesBracket (text : String) : Bool := [")", "]", "\x7d"].contains text

def isBracket (text : String) : Bool := opensBracket text || closesBracket text

/-- The symbols that are looked for outside of brackets. -/
def isDivider (text : String) : Bool := ["in", ",", ";"].contains text

/-- Whether an operator `in` stands outside of all brackets, at a depth of brackets open before. -/
def showsIn : Nat → List Piece → Bool
  | _, [] => false
  | depth, .sym text :: ps =>
    if opensBracket text then showsIn (depth + 1) ps
    else if closesBracket text then showsIn (depth - 1) ps
    else (depth == 0 && text == "in") || showsIn depth ps
  | depth, _ :: ps => showsIn depth ps

theorem showsIn_nil (depth : Nat) : showsIn depth [] = false := rfl

theorem showsIn_sym (depth : Nat) (text : String) (ps : List Piece) :
    showsIn depth (.sym text :: ps) =
      if opensBracket text then showsIn (depth + 1) ps
      else if closesBracket text then showsIn (depth - 1) ps
      else (depth == 0 && text == "in") || showsIn depth ps := rfl

theorem showsIn_word {p : Piece} (h : ∀ text, p ≠ .sym text) (depth : Nat) (ps : List Piece) :
    showsIn depth (p :: ps) = showsIn depth ps := by
  cases p with
  | sym text => exact absurd rfl (h text)
  | _ => rfl

/-- What parentheses, if they are needed, leave to be seen. -/
def unlessParens (needed shown : Bool) : Bool := !needed && shown

/-- Pieces that close every bracket they open, with the dividers that stand outside of their
brackets. -/
inductive Nests : List Piece → List String → Prop
  | nil : Nests [] []
  | consWord {p ps ds} : (∀ text, p ≠ .sym text) → Nests ps ds → Nests (p :: ps) ds
  | consPlain {text ps ds} : isBracket text = false → isDivider text = false → Nests ps ds →
      Nests (.sym text :: ps) ds
  | consDivider {text ps ds} : isDivider text = true → Nests ps ds →
      Nests (.sym text :: ps) (text :: ds)
  | consEnclosed {o c inner ps es ds} : opensBracket o = true → closesBracket c = true →
      Nests inner es → Nests ps ds → Nests (enclosed o c inner ++ ps) ds

def Balanced (pieces : List Piece) : Prop := ∃ dividers, Nests pieces dividers

/-- The dividers that parentheses, if they are needed, leave to be seen. -/
def unlessParenthesized (needed : Bool) (dividers : List String) : List String :=
  if needed then [] else dividers

section Symbols
variable {text : String}

theorem not_isBracket_of_isDivider (h : isDivider text = true) : isBracket text = false := by
  simp only [isDivider, List.contains_iff_mem, List.mem_cons, List.not_mem_nil, or_false] at h
  obtain rfl | rfl | rfl := h <;> rfl

theorem not_opensBracket_of_closesBracket (h : closesBracket text = true) :
    opensBracket text = false := by
  simp only [closesBracket, List.contains_iff_mem, List.mem_cons, List.not_mem_nil, or_false] at h
  obtain rfl | rfl | rfl := h <;> rfl

end Symbols

namespace Nests

variable {ps qs : List Piece} {ds es : List String}

theorem showsIn_append (h : Nests ps ds) : ∀ depth rest,
    showsIn depth (ps ++ rest) = ((depth == 0 && ds.contains "in") || showsIn depth rest) := by
  induction h with
  | nil =>
    intro depth rest
    simp
  | consWord hp _ ih =>
    intro depth rest
    rw [List.cons_append, showsIn_word hp, ih]
  | @consPlain text ps ds hbracket hplain _ ih =>
    intro depth rest
    rw [isBracket, Bool.or_eq_false_iff] at hbracket
    have hin : (text == "in") = false := by
      rw [beq_eq_false_iff_ne]
      rintro rfl
      cases hplain
    simp [showsIn_sym, hbracket, hin, ih]
  | @consDivider text ps ds hdivider _ ih =>
    intro depth rest
    have hbracket := not_isBracket_of_isDivider hdivider
    rw [isBracket, Bool.or_eq_false_iff] at hbracket
    rw [List.cons_append, showsIn_sym, hbracket.1, hbracket.2, if_neg Bool.false_ne_true,
      if_neg Bool.false_ne_true, ih depth rest, List.contains_cons, (BEq.comm : (text == "in") = _),
      Bool.and_or_distrib_left, Bool.or_assoc]
  | @consEnclosed o c inner ps es ds ho hc _ _ ihInner ih =>
    intro depth rest
    have hinner := ihInner (depth + 1) (.sym c :: (ps ++ rest))
    simp [enclosed, showsIn_sym, ho, hc, not_opensBracket_of_closesBracket hc, hinner, ih]

/-- What is shown outside of all brackets. -/
theorem shown_eq (h : Nests ps ds) : showsIn 0 ps = ds.contains "in" := by
  have h := h.showsIn_append 0 []
  simpa [showsIn_nil] using h

theorem balanced (h : Nests ps ds) : Balanced ps := ⟨ds, h⟩

theorem append (hp : Nests ps ds) (hq : Nests qs es) : Nests (ps ++ qs) (ds ++ es) := by
  induction hp with
  | nil => exact hq
  | consWord h _ ih => exact .consWord h ih
  | consPlain hbracket hplain _ ih => exact .consPlain hbracket hplain ih
  | consDivider h _ ih => exact .consDivider h ih
  | consEnclosed ho hc hinner _ _ ih =>
    rw [List.append_assoc]
    exact .consEnclosed ho hc hinner ih

/-- What shows no divider may follow. -/
theorem append_closed (hp : Nests ps ds) (hq : Nests qs []) : Nests (ps ++ qs) ds := by
  rw [← List.append_nil ds]
  exact hp.append hq

theorem cons {p : Piece} (hp : Nests [p] ds) (hq : Nests qs es) : Nests (p :: qs) (ds ++ es) :=
  hp.append hq

theorem cons_space (hq : Nests qs es) : Nests (.space :: qs) es := .consWord (by simp) hq

/-- A symbol between spaces that is neither a bracket nor a divider. -/
theorem cons_spaced (text : String) (h : isBracket text = false) (hplain : isDivider text = false)
    (hq : Nests qs es) : Nests (.space :: .sym text :: .space :: qs) es :=
  cons_space (.consPlain h hplain (cons_space hq))

/-- A piece that is no symbol. -/
theorem word {p : Piece} (h : ∀ text, p ≠ .sym text) : Nests [p] [] := .consWord h .nil

/-- A symbol that is neither a bracket nor a divider. -/
theorem plain {text : String} (h : isBracket text = false) (hplain : isDivider text = false) :
    Nests [.sym text] [] :=
  .consPlain h hplain .nil

/-- A symbol that is no bracket. -/
theorem sym {text : String} (h : isBracket text = false) :
    Nests [.sym text] (if isDivider text then [text] else []) := by
  split
  · next hdivider => exact .consDivider hdivider .nil
  · next hplain => exact plain h (by simpa using hplain)

theorem enclosed {o c : String} (ho : opensBracket o = true) (hc : closesBracket c = true)
    (hp : Nests ps ds) : Nests (enclosed o c ps) [] := by
  rw [← List.append_nil (RegisterForm.enclosed o c ps)]
  exact .consEnclosed ho hc hp .nil

theorem parenthesized (needed : Bool) (hp : Nests ps ds) :
    Nests (parenthesized needed ps) (unlessParenthesized needed ds) := by
  cases needed with
  | false => exact hp
  | true => exact enclosed rfl rfl hp

theorem ite (c : Prop) [Decidable c] (hp : Nests ps ds) (hq : Nests qs ds) :
    Nests (if c then ps else qs) ds := by
  by_cases h : c
  · rwa [if_pos h]
  · rwa [if_neg h]

end Nests

namespace Balanced

variable {ps qs : List Piece}

theorem nil : Balanced [] := Nests.nil.balanced

theorem append (hp : Balanced ps) (hq : Balanced qs) : Balanced (ps ++ qs) := by
  obtain ⟨a, ha⟩ := hp
  obtain ⟨b, hb⟩ := hq
  exact ⟨_, ha.append hb⟩

theorem cons {p : Piece} (hp : Balanced [p]) (hq : Balanced qs) : Balanced (p :: qs) :=
  hp.append hq

theorem word {p : Piece} (h : ∀ text, p ≠ .sym text) : Balanced [p] :=
  (Nests.word h).balanced

theorem cons_sym {text : String} (h : isBracket text = false) (hq : Balanced qs) :
    Balanced (.sym text :: qs) :=
  .cons (Nests.sym h).balanced hq

theorem cons_space (hq : Balanced qs) : Balanced (.space :: qs) :=
  .cons (word (by simp)) hq

theorem cons_line (level : Nat) (hq : Balanced qs) : Balanced (.line level :: qs) :=
  .cons (word (by simp)) hq

theorem cons_ident (x : Ident) (hq : Balanced qs) : Balanced (.ident x :: qs) :=
  .cons (word (by simp)) hq

theorem cons_name (text : String) (hq : Balanced qs) : Balanced (.name text :: qs) :=
  .cons (word (by simp)) hq

theorem cons_string (text : String) (hq : Balanced qs) : Balanced (.string text :: qs) :=
  .cons (word (by simp)) hq

theorem cons_number (source : String) (hq : Balanced qs) :
    Balanced (.number source :: qs) :=
  .cons (word (by simp)) hq

theorem enclosed {o c : String} (ho : opensBracket o = true) (hc : closesBracket c = true)
    (hp : Balanced ps) : Balanced (enclosed o c ps) := by
  obtain ⟨ds, hds⟩ := hp
  exact (Nests.enclosed ho hc hds).balanced

theorem parenthesized (needed : Bool) (hp : Balanced ps) :
    Balanced (parenthesized needed ps) := by
  obtain ⟨a, ha⟩ := hp
  exact (ha.parenthesized needed).balanced

/-- Symbols and spaces, if they are wanted. -/
theorem ite (c : Prop) [Decidable c] (hp : Balanced ps) (hq : Balanced qs) :
    Balanced (if c then ps else qs) := by
  by_cases h : c
  · rwa [if_pos h]
  · rwa [if_neg h]

theorem flatMap {α : Type} {f : α → List Piece} {xs : List α} (h : ∀ x ∈ xs, Balanced (f x)) :
    Balanced (xs.flatMap f) := by
  induction xs with
  | nil => exact nil
  | cons x xs ih =>
    rw [List.flatMap_cons]
    exact (h x List.mem_cons_self).append (ih fun y hy => h y (List.mem_cons_of_mem _ hy))

end Balanced

/-- Lists of pieces each of which is balanced. -/
def AllBalanced (items : List (List Piece)) : Prop := ∀ item ∈ items, Balanced item

namespace AllBalanced

variable {item : List Piece} {items items' : List (List Piece)}

theorem nil : AllBalanced [] := fun _ h => by cases h

theorem cons (h : Balanced item) (hs : AllBalanced items) : AllBalanced (item :: items) := by
  intro p hp
  obtain rfl | hp := List.mem_cons.mp hp
  · exact h
  · exact hs p hp

theorem append (h : AllBalanced items) (h' : AllBalanced items') :
    AllBalanced (items ++ items') := by
  intro p hp
  obtain hp | hp := List.mem_append.mp hp
  · exact h p hp
  · exact h' p hp

theorem ite (c : Prop) [Decidable c] (h : AllBalanced items) (h' : AllBalanced items') :
    AllBalanced (if c then items else items') := by
  by_cases hc : c
  · rwa [if_pos hc]
  · rwa [if_neg hc]

theorem commaSeparated : ∀ {items : List (List Piece)}, AllBalanced items →
    Balanced (commaSeparated items)
  | [], _ => .nil
  | [item], h => h item List.mem_cons_self
  | item₁ :: item₂ :: items, h => by
    have hmore : AllBalanced (item₂ :: items) := fun p hp => h p (List.mem_cons_of_mem _ hp)
    exact (h item₁ List.mem_cons_self).append (.cons_sym rfl (.cons_space hmore.commaSeparated))

theorem commaLines (level : Nat) : ∀ {items : List (List Piece)}, AllBalanced items →
    Balanced (commaLines level items)
  | [], _ => .nil
  | [item], h => .cons_line level (h item List.mem_cons_self)
  | item₁ :: item₂ :: items, h => by
    have hmore : AllBalanced (item₂ :: items) := fun p hp => h p (List.mem_cons_of_mem _ hp)
    have hfirst := Balanced.cons_line level (h item₁ List.mem_cons_self)
    exact hfirst.append (.cons_sym rfl (hmore.commaLines level))

theorem lines (level : Nat) (h : AllBalanced items) :
    Balanced (items.flatMap (.line level :: ·)) :=
  .flatMap fun item hitem => .cons_line level (h item hitem)

end AllBalanced

theorem Balanced.enclosed_nests {ps : List Piece} {o c : String} (ho : opensBracket o = true)
    (hc : closesBracket c = true) (hp : Balanced ps) :
    Nests (RegisterForm.enclosed o c ps) [] := by
  obtain ⟨ds, hds⟩ := hp
  exact hds.enclosed ho hc

/-- Lines between braces. -/
theorem AllBalanced.braced (level : Nat) {items : List (List Piece)} (h : AllBalanced items) :
    Nests (braced level items) [] := by
  have hinner : Balanced (items.flatMap (.line (level + 1) :: ·) ++ [.line level]) :=
    (h.lines _).append (.word (by simp))
  have hb := hinner.enclosed_nests (o := "\x7b") (c := "\x7d") rfl rfl
  simpa [RegisterForm.enclosed, RegisterForm.braced] using hb

/-- The expressions of a template stand in brackets. -/
theorem templatePieces_nests : ∀ (chunks : List String) {parts : List (List Piece)},
    AllBalanced parts → Nests (templatePieces chunks parts) []
  | [], _, _ => .nil
  | chunk :: chunks, [], h => by
    rw [templatePieces]
    exact .cons (.word (by simp)) (templatePieces_nests chunks h)
  | chunk :: chunks, part :: parts, h => by
    rw [templatePieces]
    have hpart := (h part List.mem_cons_self).enclosed_nests (o := "$\x7b") (c := "\x7d") rfl rfl
    have hmore : Nests (templatePieces chunks parts) [] :=
      templatePieces_nests chunks fun p hp => h p (List.mem_cons_of_mem _ hp)
    exact (Nests.cons (.word (by simp)) hpart).append hmore

/-! ## What trees show -/

mutual

/-- The dividers that an expression prints outside of all its brackets. -/
def Expr.dividers : Expr → List String
  | .tagged tag _ _ => unlessParenthesized (tag.rank < Rank.call) tag.dividers
  | .arrow _ body _ => body.dividers
  | .classExpr c => c.dividers
  | .unary _ arg | .update _ true arg | .await arg =>
    unlessParenthesized (arg.rank < Rank.unary) arg.dividers
  | .update _ false arg => unlessParenthesized (arg.rank < Rank.construct) arg.dividers
  | .binary op left right =>
    unlessParenthesized (left.clashesWith op || (op == .exp && left.isUnaryLike)
        || left.rank < if op.isRightAssociative then op.precedence + 1 else op.precedence)
      left.dividers
    ++ (if op == .isIn then ["in"] else [])
    ++ unlessParenthesized (right.clashesWith op
        || right.rank < if op.isRightAssociative then op.precedence else op.precedence + 1)
      right.dividers
  | .assign _ target value =>
    target.dividers ++ unlessParenthesized (value.rank < Rank.assign) value.dividers
  | .conditional test yes no =>
    unlessParenthesized (test.rank < Rank.conditional + 1) test.dividers
      ++ unlessParenthesized (yes.rank < Rank.assign) yes.dividers
      ++ unlessParenthesized (no.rank < Rank.assign) no.dividers
  | .call callee _ _ => unlessParenthesized (callee.rank < Rank.call) callee.dividers
  | .newBare callee | .newCall callee _ =>
    unlessParenthesized (!callee.isPlainCallee) callee.dividers
  | .member owner _ _ | .index owner _ _ =>
    unlessParenthesized (owner.rank < Rank.call || owner.isNumber) owner.dividers
  | .sequence exprs => exprsDividers exprs
  | .yield arg _ => dividers? Rank.assign arg
  | .spread arg => unlessParenthesized (arg.rank < Rank.assign) arg.dividers
  | .ident _ | .literal _ | .template _ _ | .this | .super | .array _ | .object _ | .function _
  | .paren _ | .importCall _ | .importMeta => []

def exprsDividers : List Expr → List String
  | [] => []
  | [e] => unlessParenthesized (e.rank < Rank.assign) e.dividers
  | e :: e' :: es =>
    unlessParenthesized (e.rank < Rank.assign) e.dividers ++ "," :: exprsDividers (e' :: es)

def dividers? (min : Rank) : Option Expr → List String
  | none => []
  | some e => unlessParenthesized (e.rank < min) e.dividers

def ArrowBody.dividers : ArrowBody → List String
  | .block _ => []
  | .expr e => unlessParenthesized (e.isObject || e.rank < Rank.assign) e.dividers

def Class.dividers : Class → List String
  | ⟨_, base, _⟩ => dividers? Rank.call base

def Pattern.dividers : Pattern → List String
  | .expr e => unlessParenthesized (e.rank < Rank.call) e.dividers
  | .ident _ | .object _ _ | .array _ _ => []

end

def Declarator.dividers : Declarator → List String
  | ⟨target, init⟩ => target.dividers ++ dividers? Rank.assign init

def declaratorsDividers : List Declarator → List String
  | [] => []
  | [d] => d.dividers
  | d :: d' :: ds => d.dividers ++ "," :: declaratorsDividers (d' :: ds)

def ForInit.dividers : ForInit → List String
  | .absent => []
  | .var list => declaratorsDividers list.declarators
  | .expr e => e.dividers

/-! ## Operators `in` -/

mutual

/-- Whether an expression prints an operator `in` outside of all its brackets. -/
def Expr.showsIn : Expr → Bool
  | .tagged tag _ _ => unlessParens (tag.rank < Rank.call) tag.showsIn
  | .arrow _ body _ => body.showsIn
  | .classExpr c => c.showsIn
  | .unary _ arg | .update _ true arg | .await arg =>
    unlessParens (arg.rank < Rank.unary) arg.showsIn
  | .update _ false arg => unlessParens (arg.rank < Rank.construct) arg.showsIn
  | .binary op left right =>
    unlessParens (left.clashesWith op || (op == .exp && left.isUnaryLike)
        || left.rank < if op.isRightAssociative then op.precedence + 1 else op.precedence)
      left.showsIn
    || op == .isIn
    || unlessParens (right.clashesWith op
        || right.rank < if op.isRightAssociative then op.precedence else op.precedence + 1)
      right.showsIn
  | .assign _ target value =>
    target.showsIn || unlessParens (value.rank < Rank.assign) value.showsIn
  | .conditional test yes no =>
    unlessParens (test.rank < Rank.conditional + 1) test.showsIn
      || unlessParens (yes.rank < Rank.assign) yes.showsIn
      || unlessParens (no.rank < Rank.assign) no.showsIn
  | .call callee _ _ => unlessParens (callee.rank < Rank.call) callee.showsIn
  | .newBare callee | .newCall callee _ => unlessParens (!callee.isPlainCallee) callee.showsIn
  | .member owner _ _ | .index owner _ _ =>
    unlessParens (owner.rank < Rank.call || owner.isNumber) owner.showsIn
  | .sequence exprs => anyShowsIn exprs
  | .yield arg _ => showsIn? Rank.assign arg
  | .spread arg => unlessParens (arg.rank < Rank.assign) arg.showsIn
  | .ident _ | .literal _ | .template _ _ | .this | .super | .array _ | .object _ | .function _
  | .paren _ | .importCall _ | .importMeta => false

def anyShowsIn : List Expr → Bool
  | [] => false
  | e :: es => unlessParens (e.rank < Rank.assign) e.showsIn || anyShowsIn es

def showsIn? (min : Rank) : Option Expr → Bool
  | none => false
  | some e => unlessParens (e.rank < min) e.showsIn

def ArrowBody.showsIn : ArrowBody → Bool
  | .block _ => false
  | .expr e => unlessParens (e.isObject || e.rank < Rank.assign) e.showsIn

def Class.showsIn : Class → Bool
  | ⟨_, base, _⟩ => showsIn? Rank.call base

def Pattern.showsIn : Pattern → Bool
  | .expr e => unlessParens (e.rank < Rank.call) e.showsIn
  | .ident _ | .object _ _ | .array _ _ => false

end

def Declarator.showsIn : Declarator → Bool
  | ⟨target, init⟩ => target.showsIn || showsIn? Rank.assign init

/-- Whether the first part of a counting loop prints an operator `in` outside of all brackets. -/
def ForInit.showsIn : ForInit → Bool
  | .absent => false
  | .var list => list.declarators.any (·.showsIn)
  | .expr e => e.showsIn

@[simp] theorem mem_unlessParenthesized {needed : Bool} {ds : List String} {d : String} :
    d ∈ unlessParenthesized needed ds ↔ needed = false ∧ d ∈ ds := by
  cases needed <;> simp [unlessParenthesized]

section ShowsIn
variable {shown shown' : Bool} {ds es : List String}

theorem unlessParens_iff (needed : Bool) (h : shown = true ↔ "in" ∈ ds) :
    unlessParens needed shown = true ↔ "in" ∈ unlessParenthesized needed ds := by
  cases needed
  · exact h
  · simp [unlessParens, unlessParenthesized]

theorem or_iff_mem_append (h : shown = true ↔ "in" ∈ ds) (h' : shown' = true ↔ "in" ∈ es) :
    (shown || shown') = true ↔ "in" ∈ ds ++ es := by
  rw [Bool.or_eq_true, List.mem_append, h, h']

theorem false_iff_mem_nil : false = true ↔ "in" ∈ ([] : List String) := by simp

/-- A comma is no `in`. -/
theorem or_iff_mem_comma (h : shown = true ↔ "in" ∈ ds) (h' : shown' = true ↔ "in" ∈ es) :
    (shown || shown') = true ↔ "in" ∈ ds ++ "," :: es :=
  or_iff_mem_append h (h'.trans (by simp))

theorem isIn_iff (op : BinaryOp) :
    (op == .isIn) = true ↔ "in" ∈ (if op == .isIn then ["in"] else []) := by
  cases op <;> decide

end ShowsIn

mutual

theorem Expr.showsIn_iff : ∀ e : Expr, e.showsIn = true ↔ "in" ∈ e.dividers
  | .tagged tag _ _ => unlessParens_iff _ tag.showsIn_iff
  | .arrow _ body _ => body.showsIn_iff
  | .classExpr c => c.showsIn_iff
  | .unary _ arg | .update _ true arg | .await arg | .update _ false arg | .spread arg =>
    unlessParens_iff _ arg.showsIn_iff
  | .binary op left right =>
    or_iff_mem_append (or_iff_mem_append (unlessParens_iff _ left.showsIn_iff) (isIn_iff op))
      (unlessParens_iff _ right.showsIn_iff)
  | .assign _ target value =>
    or_iff_mem_append target.showsIn_iff (unlessParens_iff _ value.showsIn_iff)
  | .conditional test yes no =>
    or_iff_mem_append (or_iff_mem_append (unlessParens_iff _ test.showsIn_iff)
      (unlessParens_iff _ yes.showsIn_iff)) (unlessParens_iff _ no.showsIn_iff)
  | .call callee _ _ | .newBare callee | .newCall callee _ =>
    unlessParens_iff _ callee.showsIn_iff
  | .member owner _ _ | .index owner _ _ => unlessParens_iff _ owner.showsIn_iff
  | .sequence exprs => anyShowsIn_iff exprs
  | .yield arg _ => showsIn?_iff Rank.assign arg
  | .ident _ | .literal _ | .template _ _ | .this | .super | .array _ | .object _ | .function _
  | .paren _ | .importCall _ | .importMeta => false_iff_mem_nil

theorem anyShowsIn_iff : ∀ es : List Expr, anyShowsIn es = true ↔ "in" ∈ exprsDividers es
  | [] => false_iff_mem_nil
  | [e] => by
    rw [anyShowsIn, anyShowsIn, Bool.or_false]
    exact unlessParens_iff _ e.showsIn_iff
  | e :: e' :: es => or_iff_mem_comma (unlessParens_iff _ e.showsIn_iff) (anyShowsIn_iff (e' :: es))

theorem showsIn?_iff (min : Rank) : ∀ e : Option Expr,
    showsIn? min e = true ↔ "in" ∈ dividers? min e
  | none => false_iff_mem_nil
  | some e => unlessParens_iff _ e.showsIn_iff

theorem ArrowBody.showsIn_iff : ∀ b : ArrowBody, b.showsIn = true ↔ "in" ∈ b.dividers
  | .block _ => false_iff_mem_nil
  | .expr e => unlessParens_iff _ e.showsIn_iff

theorem Class.showsIn_iff : ∀ c : Class, c.showsIn = true ↔ "in" ∈ c.dividers
  | ⟨_, base, _⟩ => showsIn?_iff Rank.call base

theorem Pattern.showsIn_iff : ∀ p : Pattern, p.showsIn = true ↔ "in" ∈ p.dividers
  | .expr e => unlessParens_iff _ e.showsIn_iff
  | .ident _ | .object _ _ | .array _ _ => false_iff_mem_nil

end

theorem Declarator.showsIn_iff (d : Declarator) : d.showsIn = true ↔ "in" ∈ d.dividers := by
  obtain ⟨target, init⟩ := d
  exact or_iff_mem_append target.showsIn_iff (showsIn?_iff Rank.assign init)

theorem ForInit.showsIn_iff (init : ForInit) : init.showsIn = true ↔ "in" ∈ init.dividers := by
  cases init with
  | absent => exact false_iff_mem_nil
  | expr e => exact e.showsIn_iff
  | var list =>
    rw [ForInit.showsIn, ForInit.dividers]
    generalize list.declarators = declarators
    fun_induction declaratorsDividers declarators with
    | case1 => simp
    | case2 d => simp [d.showsIn_iff]
    | case3 d d' ds ih => exact or_iff_mem_comma d.showsIn_iff ih

/-! ## Commas -/

/-- An operand in a slot that asks for at least the rank of an assignment shows no comma. -/
theorem eq_in_of_slot (min : Rank) {e : Expr} {needed : Bool} {d : String}
    (h : d ∈ e.dividers → d = "in" ∨ d = "," ∧ e.rank < Rank.assign)
    (hneeded : needed = false → min ≤ e.rank) (hd : d ∈ unlessParenthesized needed e.dividers)
    (hmin : Rank.assign ≤ min := by decide) : d = "in" := by
  obtain ⟨hbare, hd⟩ := mem_unlessParenthesized.mp hd
  obtain hin | ⟨-, hrank⟩ := h hd
  · exact hin
  · exact absurd (Nat.le_trans hmin (hneeded hbare)) (Nat.not_le.mpr hrank)

theorem rank_of_isPlainCallee {e : Expr} (h : e.isPlainCallee = true) : Rank.call ≤ e.rank := by
  cases e <;> simp_all [Expr.isPlainCallee, Expr.rank, Rank.call, Rank.primary]

/-- Binary operators bind tighter than assignments. -/
theorem assign_le_precedence (op : BinaryOp) : Rank.assign ≤ op.precedence := by
  cases op <;> decide

theorem assign_le_slot (op : BinaryOp) (tighter : Bool) :
    Rank.assign ≤ (if tighter then op.precedence + 1 else op.precedence)
      ∧ Rank.assign ≤ (if tighter then op.precedence else op.precedence + 1) := by
  have hprecedence := assign_le_precedence op
  cases tighter
  · exact ⟨hprecedence, Nat.le_succ_of_le hprecedence⟩
  · exact ⟨Nat.le_succ_of_le hprecedence, hprecedence⟩

mutual

/-- Outside of its brackets an expression shows no semicolon, and a comma only if it is a bare
sequence. -/
theorem Expr.dividers_cases : ∀ (e : Expr) {d : String}, d ∈ e.dividers →
    d = "in" ∨ d = "," ∧ e.rank < Rank.assign
  | .tagged tag _ _, _, hd => .inl (eq_in_of_slot Rank.call tag.dividers_cases rank_of_bare hd)
  | .arrow _ body _, _, hd => .inl (body.dividers_cases hd)
  | .classExpr c, _, hd => .inl (c.dividers_cases hd)
  | .unary _ arg, _, hd | .update _ true arg, _, hd | .await arg, _, hd =>
    .inl (eq_in_of_slot Rank.unary arg.dividers_cases rank_of_bare hd)
  | .update _ false arg, _, hd =>
    .inl (eq_in_of_slot Rank.construct arg.dividers_cases rank_of_bare hd)
  | .binary op left right, d, hd => by
    obtain hbefore | hright := List.mem_append.mp hd
    · obtain hleft | hop := List.mem_append.mp hbefore
      · exact .inl (eq_in_of_slot _ left.dividers_cases rank_of_bare_or hleft
          (assign_le_slot op op.isRightAssociative).1)
      · exact .inl (by split at hop <;> simp_all)
    · exact .inl (eq_in_of_slot _ right.dividers_cases rank_of_bare_or hright
        (assign_le_slot op op.isRightAssociative).2)
  | .assign _ target value, _, hd => by
    obtain htarget | hvalue := List.mem_append.mp hd
    · exact .inl (target.dividers_cases htarget)
    · exact .inl (eq_in_of_slot Rank.assign value.dividers_cases rank_of_bare hvalue)
  | .conditional test yes no, _, hd => by
    obtain hbefore | hno := List.mem_append.mp hd
    · obtain htest | hyes := List.mem_append.mp hbefore
      · exact .inl (eq_in_of_slot (Rank.conditional + 1) test.dividers_cases rank_of_bare htest)
      · exact .inl (eq_in_of_slot Rank.assign yes.dividers_cases rank_of_bare hyes)
    · exact .inl (eq_in_of_slot Rank.assign no.dividers_cases rank_of_bare hno)
  | .call callee _ _, _, hd => .inl (eq_in_of_slot Rank.call callee.dividers_cases rank_of_bare hd)
  | .newBare callee, _, hd | .newCall callee _, _, hd =>
    .inl (eq_in_of_slot Rank.call callee.dividers_cases
      (fun h => rank_of_isPlainCallee (by simpa using h)) hd)
  | .member owner _ _, _, hd | .index owner _ _, _, hd =>
    .inl (eq_in_of_slot Rank.call owner.dividers_cases
      (fun h => rank_of_bare (Bool.or_eq_false_iff.mp h).1) hd)
  | .sequence exprs, _, hd => by
    obtain hin | hcomma := exprsDividers_cases exprs hd
    · exact .inl hin
    · exact .inr ⟨hcomma, Nat.zero_lt_two⟩
  | .yield arg _, _, hd => .inl (dividers?_cases Rank.assign arg hd)
  | .spread arg, _, hd => .inl (eq_in_of_slot Rank.assign arg.dividers_cases rank_of_bare hd)

theorem exprsDividers_cases : ∀ (es : List Expr) {d : String}, d ∈ exprsDividers es →
    d = "in" ∨ d = ","
  | [e], _, hd => .inl (eq_in_of_slot Rank.assign e.dividers_cases rank_of_bare hd)
  | e :: e' :: es, _, hd => by
    obtain hfirst | hrest := List.mem_append.mp hd
    · exact .inl (eq_in_of_slot Rank.assign e.dividers_cases rank_of_bare hfirst)
    · obtain hcomma | hmore := List.mem_cons.mp hrest
      · exact .inr hcomma
      · exact exprsDividers_cases (e' :: es) hmore

theorem dividers?_cases (min : Rank) : ∀ (e : Option Expr) {d : String}, d ∈ dividers? min e →
    (hmin : Rank.assign ≤ min := by decide) → d = "in"
  | some e, _, hd, hmin => eq_in_of_slot min e.dividers_cases rank_of_bare hd hmin

theorem ArrowBody.dividers_cases : ∀ (b : ArrowBody) {d : String}, d ∈ b.dividers → d = "in"
  | .expr e, _, hd => eq_in_of_slot Rank.assign e.dividers_cases rank_of_bare_or hd

theorem Class.dividers_cases : ∀ (c : Class) {d : String}, d ∈ c.dividers → d = "in"
  | ⟨_, base, _⟩, _, hd => dividers?_cases Rank.call base hd

theorem Pattern.dividers_cases : ∀ (p : Pattern) {d : String}, d ∈ p.dividers → d = "in"
  | .expr e, _, hd => eq_in_of_slot Rank.call e.dividers_cases rank_of_bare hd

end

theorem trailingHole_balanced (endsInHole : Bool) : Balanced (trailingHole endsInHole) :=
  .ite _ (.cons_sym rfl .nil) .nil

theorem spacedIf_balanced (wanted : Bool) {text : String} (h : isBracket text = false) :
    Balanced (spacedIf wanted text) :=
  .ite _ (.cons_sym h (.cons_space .nil)) .nil

theorem spacedIf_nests (wanted : Bool) {text : String} (h : isBracket text = false)
    (hplain : isDivider text = false) : Nests (spacedIf wanted text) [] := by
  cases wanted with
  | false => exact .nil
  | true => exact .cons (.plain h hplain) (.word (p := .space) (by simp))

/-- A symbol between spaces that is neither a bracket nor `in`. -/
theorem spaced_nests (text : String) (h : isBracket text = false) (hplain : isDivider text = false) :
    Nests [.space, .sym text, .space] [] :=
  .cons_spaced text h hplain .nil

/-- What introduces a value. -/
theorem initial_nests : Nests [.space, .sym "=", .space] [] := spaced_nests _ rfl rfl

theorem comma_nests : Nests [.sym ",", .space] [","] := .cons (.sym rfl) (.word (by simp))

theorem new_nests : Nests [.sym "new", .space] [] := .cons (.sym rfl) (.word (by simp))

theorem optional_nests (isOptional : Bool) :
    Nests (if isOptional then [.sym "?."] else []) [] := .ite _ (.sym rfl) .nil

theorem property_nests (name : String) (isOptional : Bool) :
    Nests [.sym (if isOptional then "?." else "."), .name name] [] := by
  cases isOptional <;> exact .cons (.sym rfl) (.word (by simp))

theorem yield_nests (isDelegate : Bool) :
    Nests [.sym (if isDelegate then "yield*" else "yield")] [] := by
  cases isDelegate <;> exact .sym rfl

theorem unary_nests (op : UnaryOp) : Nests [.sym op.text] [] := by
  cases op <;> exact .sym rfl

theorem update_nests (op : UpdateOp) : Nests [.sym op.text] [] := by
  cases op <;> exact .sym rfl

theorem binary_nests (op : BinaryOp) :
    Nests [.space, .sym op.text, .space] (if op == .isIn then ["in"] else []) := by
  cases op <;> exact .cons_space (.cons (.sym rfl) (.cons_space .nil))

theorem assign_nests (op : AssignOp) : Nests [.space, .sym op.text, .space] [] := by
  cases op <;> exact spaced_nests _ rfl rfl

theorem Literal.nests : ∀ value : Literal, Nests [value.piece] []
  | .boolean true | .boolean false | .null => .sym rfl
  | .string _ | .number _ | .regex _ _ => .word (by simp [Literal.piece])

theorem backticks_nests (chunks : List String) {parts : List (List Piece)} (h : AllBalanced parts) :
    Nests (enclosed "`" "`" (templatePieces chunks parts)) [] := by
  have hquote : Nests [.sym "`"] [] := .sym rfl
  exact (hquote.append (templatePieces_nests chunks h)).append hquote

/-- The three parts of the head of a counting loop. -/
theorem balanced_parts {first second third : List Piece} (h₁ : Balanced first) (h₂ : Balanced second)
    (h₃ : Balanced third) : Balanced (first ++ .sym ";" :: second ++ .sym ";" :: third) :=
  (h₁.append (.cons_sym rfl h₂)).append (.cons_sym rfl h₃)

/-- A keyword with spaces around it. -/
theorem balanced_around (keyword : String) (h : isBracket keyword = false) {before after : List Piece}
    (hbefore : Balanced before) (hafter : Balanced after) :
    Balanced (before ++ .space :: .sym keyword :: .space :: after) :=
  hbefore.append (.cons_space (.cons_sym h (.cons_space hafter)))

theorem gapAfter_balanced (n : Nat) (s : Stmt) {ps : List Piece} (h : Balanced ps) :
    Balanced (gapAfter n s :: ps) := by
  rw [gapAfter]
  split
  · exact .cons_space h
  · exact .cons_line n h

theorem jumpPieces_balanced {keyword : String} (h : isBracket keyword = false) (label : Option String) :
    Balanced (jumpPieces keyword label) := by
  have hlabel : Balanced (label.toList.flatMap fun l => [.space, .name l]) :=
    .flatMap fun l _ => .cons_space (.cons_name l .nil)
  exact .append (.cons_sym h hlabel) (.cons_sym rfl .nil)

/-- Names or patterns between braces on one line. -/
theorem bracedNames_nests : ∀ {items : List (List Piece)}, AllBalanced items →
    Nests (bracedNames items) []
  | [], _ => Balanced.nil.enclosed_nests (o := "\x7b") (c := "\x7d") rfl rfl
  | item :: items, h => by
    have hinner : Balanced (.space :: commaSeparated (item :: items) ++ [.space]) :=
      (Balanced.cons_space h.commaSeparated).append (.cons_space .nil)
    have hb := hinner.enclosed_nests (o := "\x7b") (c := "\x7d") rfl rfl
    simpa [enclosed, bracedNames] using hb

section Clauses

theorem ImportSpecifier.balanced (s : ImportSpecifier) : Balanced s.pieces := by
  obtain ⟨imported, binding, isTypeOnly⟩ := s
  have hkeyword : Balanced (spacedIf isTypeOnly "type") := spacedIf_balanced isTypeOnly rfl
  cases imported with
  | none => exact (hkeyword.append .nil).append (.cons_ident binding .nil)
  | some name =>
    have himported : Balanced [.name name, .space, .sym "as", .space] :=
      .cons_name name (spaced_nests "as" rfl rfl).balanced
    exact (hkeyword.append himported).append (.cons_ident binding .nil)

theorem ExportSpecifier.balanced (s : ExportSpecifier) : Balanced s.pieces := by
  obtain ⟨_, binding, exported, isTypeOnly⟩ := s
  have hkeyword : Balanced (spacedIf isTypeOnly "type") := spacedIf_balanced isTypeOnly rfl
  cases exported with
  | none => exact hkeyword.append (.cons_ident binding .nil)
  | some name =>
    have hexported : Balanced [.space, .sym "as", .space, .name name] :=
      (spaced_nests "as" rfl rfl).balanced.append (.cons_name name .nil)
    exact hkeyword.append (.cons_ident binding hexported)

theorem star_balanced (x : Ident) : Balanced [.sym "*", .space, .sym "as", .space, .ident x] :=
  .cons_sym rfl ((spaced_nests "as" rfl rfl).balanced.append (.cons_ident x .nil))

theorem ImportClause.balanced (c : ImportClause) : Balanced c.pieces := by
  apply AllBalanced.commaSeparated
  apply AllBalanced.append
  · intro item hitem
    obtain ⟨x, -, rfl⟩ := List.mem_map.mp hitem
    exact .cons_ident x .nil
  · intro item hitem
    obtain ⟨bindings, -, rfl⟩ := List.mem_map.mp hitem
    cases bindings with
    | star x => exact star_balanced x
    | named specifiers =>
      apply Nests.balanced
      apply bracedNames_nests
      intro item hitem
      obtain ⟨s, -, rfl⟩ := List.mem_map.mp hitem
      exact s.balanced

theorem exportClausePieces_balanced : ∀ clause : Option ExportClause,
    Balanced (exportClausePieces clause)
  | none => .cons_sym rfl .nil
  | some (.star x) => star_balanced x
  | some (.named specifiers) => by
    apply Nests.balanced
    apply bracedNames_nests
    intro item hitem
    obtain ⟨s, -, rfl⟩ := List.mem_map.mp hitem
    exact s.balanced

theorem Modifiers.balanced (m : Modifiers) : Balanced m.pieces :=
  (spacedIf_balanced m.isExported rfl).append (spacedIf_balanced m.isDefault rfl)

end Clauses

mutual

/-- An expression closes its brackets, and its tree tells whether an `in` stands outside of
them. -/
theorem Expr.nests (n : Nat) : ∀ e : Expr, Nests (e.pieces n) e.dividers
  | .ident _ => .word (by simp)
  | .this | .super => .sym rfl
  | .importMeta => .cons (.sym rfl) (.cons (.sym rfl) (.word (by simp)))
  | .literal value => value.nests
  | .template chunks parts => backticks_nests chunks (exprsPieces_balanced n Rank.sequence parts)
  | .tagged tag chunks parts =>
    ((tag.nests n).parenthesized _).append_closed
      (backticks_nests chunks (exprsPieces_balanced n Rank.sequence parts))
  | .array elements =>
    .ite _
      ((((slotsPieces_balanced (n + 1) elements).commaLines _).append
        (.cons_line n .nil)).enclosed_nests rfl rfl)
      (((slotsPieces_balanced n elements).commaSeparated.append
        (trailingHole_balanced _)).enclosed_nests rfl rfl)
  | .object [] => Balanced.nil.enclosed_nests (o := "\x7b") (c := "\x7d") rfl rfl
  | .object (p :: ps) => by
    have hitems : AllBalanced (p.pieces (n + 1) :: propertiesPieces (n + 1) ps) :=
      .cons (p.balanced (n + 1)) (propertiesPieces_balanced (n + 1) ps)
    exact ((hitems.commaLines _).append (.cons_line n .nil)).enclosed_nests rfl rfl
  | .function f => f.nests n
  | .arrow params body isAsync =>
    ((spacedIf_nests isAsync rfl rfl).append
      ((paramsPieces_balanced n params).commaSeparated.enclosed_nests rfl rfl)).append
      (.cons_spaced "=>" rfl rfl (body.nests n))
  | .classExpr c => c.nests n
  | .unary op arg =>
    ((unary_nests op).append (.ite _ (.cons_space .nil) .nil)).append
      ((arg.nests n).parenthesized _)
  | .update op true arg => (update_nests op).append ((arg.nests n).parenthesized _)
  | .update op false arg => ((arg.nests n).parenthesized _).append_closed (update_nests op)
  | .binary op left right => by
    have h {a b : Bool} := (((left.nests n).parenthesized a).append (binary_nests op)).append
      ((right.nests n).parenthesized b)
    rw [Expr.pieces_binary]
    simp only [List.append_assoc (_ : List Piece)] at h
    exact h
  | .assign op target value =>
    (target.nests n).append ((assign_nests op).append ((value.nests n).parenthesized _))
  | .conditional test yes no =>
    (((test.nests n).parenthesized _).append
      (.cons_spaced "?" rfl rfl ((yes.nests n).parenthesized _))).append
      (.cons_spaced ":" rfl rfl ((no.nests n).parenthesized _))
  | .call callee args isOptional =>
    (((callee.nests n).parenthesized _).append_closed (optional_nests isOptional)).append_closed
      ((exprsPieces_balanced n Rank.assign args).commaSeparated.enclosed_nests rfl rfl)
  | .newBare callee => new_nests.append ((callee.nests n).parenthesized _)
  | .newCall callee args =>
    (new_nests.append ((callee.nests n).parenthesized _)).append_closed
      ((exprsPieces_balanced n Rank.assign args).commaSeparated.enclosed_nests rfl rfl)
  | .member owner name isOptional =>
    ((owner.nests n).parenthesized _).append_closed (property_nests name isOptional)
  | .index owner key isOptional =>
    (((owner.nests n).parenthesized _).append_closed (optional_nests isOptional)).append_closed
      ((key.nests n).balanced.enclosed_nests rfl rfl)
  | .sequence exprs => exprsPieces_nests n exprs
  | .paren inner => (inner.nests n).balanced.enclosed_nests rfl rfl
  | .yield arg isDelegate =>
    (yield_nests isDelegate).append (exprPieces?_nests (.cons_space .nil) n Rank.assign arg)
  | .await arg => .consPlain rfl rfl (.cons_space ((arg.nests n).parenthesized _))
  | .spread arg => .consPlain rfl rfl ((arg.nests n).parenthesized _)
  | .importCall specifier =>
    .consPlain rfl rfl (((specifier.nests n).balanced.parenthesized _).enclosed_nests rfl rfl)

theorem exprsPieces_nests (n : Nat) : ∀ es : List Expr,
    Nests (commaSeparated (exprsPieces n Rank.assign es)) (exprsDividers es)
  | [] => .nil
  | [e] => (e.nests n).parenthesized _
  | e :: e' :: es =>
    ((e.nests n).parenthesized _).append (comma_nests.append (exprsPieces_nests n (e' :: es)))

theorem exprsPieces_balanced (n : Nat) (min : Rank) : ∀ es : List Expr,
    AllBalanced (exprsPieces n min es)
  | [] => .nil
  | e :: es => .cons ((e.nests n).balanced.parenthesized _) (exprsPieces_balanced n min es)

theorem exprPieces?_nests {intro : List Piece} (hintro : Nests intro []) (n : Nat) (min : Rank) :
    ∀ e : Option Expr, Nests (exprPieces? intro n min e) (dividers? min e)
  | none => .nil
  | some e => hintro.append ((e.nests n).parenthesized _)

theorem slotsPieces_balanced (n : Nat) : ∀ es : List (Option Expr), AllBalanced (slotsPieces n es)
  | [] => .nil
  | e :: es => .cons (exprPieces?_nests .nil n Rank.assign e).balanced (slotsPieces_balanced n es)

theorem Key.balanced (n : Nat) : ∀ k : Key, Balanced (k.pieces n)
  | .name text => .cons_name text .nil
  | .string text => .cons_string text .nil
  | .number source => .cons_number source .nil
  | .computed e => .enclosed rfl rfl ((e.nests n).balanced.parenthesized _)

theorem Property.balanced (n : Nat) : ∀ p : Property, Balanced (p.pieces n)
  | .keyed key value =>
    (key.balanced n).append
      (.cons_sym rfl (.cons_space ((value.nests n).balanced.parenthesized _)))
  | .shorthand x => .cons_ident x .nil
  | .method key kind f => f.methodPieces_balanced n kind (key.balanced n)
  | .spread e => .cons_sym rfl ((e.nests n).balanced.parenthesized _)

theorem propertiesPieces_balanced (n : Nat) : ∀ ps : List Property,
    AllBalanced (propertiesPieces n ps)
  | [] => .nil
  | p :: ps => .cons (p.balanced n) (propertiesPieces_balanced n ps)

theorem Pattern.nests (n : Nat) : ∀ p : Pattern, Nests (p.pieces n) p.dividers
  | .ident _ => .word (by simp)
  | .expr e => (e.nests n).parenthesized _
  | .object properties rest =>
    bracedNames_nests
      ((patternPropertiesPieces_balanced n properties).append (restPieces_balanced n rest))
  | .array elements rest =>
    (((patternSlotsPieces_balanced n elements).append
      (restPieces_balanced n rest)).commaSeparated.append (trailingHole_balanced _)).enclosed_nests rfl rfl

theorem restPieces_balanced (n : Nat) : ∀ p : Option Pattern, AllBalanced (restPieces n p)
  | none => .nil
  | some p => .cons (.cons_sym rfl (p.nests n).balanced) .nil

theorem PatternProperty.balanced (n : Nat) : ∀ p : PatternProperty, Balanced (p.pieces n)
  | .keyed key target fallback => by
    have hfallback := (exprPieces?_nests initial_nests n Rank.assign fallback).balanced
    exact ((key.balanced n).append (.cons_sym rfl (.cons_space (target.nests n).balanced))).append
      hfallback
  | .shorthand x fallback => by
    have hfallback := (exprPieces?_nests initial_nests n Rank.assign fallback).balanced
    exact .cons_ident x hfallback

theorem patternPropertiesPieces_balanced (n : Nat) : ∀ ps : List PatternProperty,
    AllBalanced (patternPropertiesPieces n ps)
  | [] => .nil
  | p :: ps => .cons (p.balanced n) (patternPropertiesPieces_balanced n ps)

theorem PatternElement.balanced (n : Nat) : ∀ e : PatternElement, Balanced (e.pieces n)
  | ⟨target, fallback⟩ =>
    (target.nests n).balanced.append
      (exprPieces?_nests initial_nests n Rank.assign fallback).balanced

theorem patternSlotPieces_balanced (n : Nat) : ∀ e : Option PatternElement,
    Balanced (patternSlotPieces n e)
  | none => .nil
  | some e => e.balanced n

theorem patternSlotsPieces_balanced (n : Nat) : ∀ es : List (Option PatternElement),
    AllBalanced (patternSlotsPieces n es)
  | [] => .nil
  | e :: es => .cons (patternSlotPieces_balanced n e) (patternSlotsPieces_balanced n es)

theorem Param.balanced (n : Nat) : ∀ p : Param, Balanced (p.pieces n)
  | ⟨pattern, fallback, isRest⟩ => by
    have hfallback := (exprPieces?_nests initial_nests n Rank.assign fallback).balanced
    have hrest : Balanced (if isRest then [.sym "..."] else []) := .ite _ (.cons_sym rfl .nil) .nil
    exact (hrest.append (pattern.nests n).balanced).append hfallback

theorem paramsPieces_balanced (n : Nat) : ∀ ps : List Param, AllBalanced (paramsPieces n ps)
  | [] => .nil
  | p :: ps => .cons (p.balanced n) (paramsPieces_balanced n ps)

/-- The parts of a function stand in brackets, but for its keywords and its name. -/
theorem Func.nests (n : Nat) : ∀ f : Func, Nests (f.pieces n) []
  | ⟨name, params, body, isAsync, isGenerator⟩ => by
    have hname : Nests (identPieces? name) [] := by
      cases name with
      | none => exact .nil
      | some x => exact .word (by simp)
    have hasync : Nests (spacedIf isAsync "async") [] := spacedIf_nests isAsync rfl rfl
    have hfunction : Nests (.sym "function" :: if isGenerator then [.sym "*"] else []) [] :=
      .consPlain rfl rfl (.ite (isGenerator = true) (.sym rfl) .nil)
    have hparams := (paramsPieces_balanced n params).commaSeparated
    exact (((hasync.append hfunction).append (.cons_space hname)).append
      (hparams.enclosed_nests rfl rfl)).append
        (.cons_space ((stmtLines_balanced (n + 1) body).braced n))

theorem Func.methodPieces_balanced (n : Nat) (kind : MethodKind) {key : List Piece} (hkey : Balanced key) :
    ∀ f : Func, Balanced (f.methodPieces n kind key)
  | ⟨_, params, body, isAsync, isGenerator⟩ => by
    have hbody := (stmtLines_balanced (n + 1) body).braced n
    have hkind : Balanced kind.pieces := by
      cases kind with
      | getter | setter => exact .cons_sym rfl (.cons_space .nil)
      | method | constructor => exact .nil
    have hparams : Balanced (enclosed "(" ")" (commaSeparated (paramsPieces n params))) :=
      .enclosed rfl rfl (paramsPieces_balanced n params).commaSeparated
    exact (((((hkind.append (spacedIf_balanced isAsync rfl)).append
      (.ite _ (.cons_sym rfl .nil) .nil)).append (.ite _ (.cons_name _ .nil) hkey)).append
      hparams).append (.cons_space hbody.balanced))

theorem ArrowBody.nests (n : Nat) : ∀ b : ArrowBody, Nests (b.pieces n) b.dividers
  | .block body => (stmtLines_balanced (n + 1) body).braced n
  | .expr e => (e.nests n).parenthesized _

theorem Class.nests (n : Nat) : ∀ c : Class, Nests (c.pieces n) c.dividers
  | ⟨name, base, members⟩ => by
    have hname : Nests (name.toList.flatMap fun x => [.space, .ident x]) [] := by
      cases name with
      | none => exact .nil
      | some x => exact .cons_space (.word (by simp))
    have hbase := exprPieces?_nests (spaced_nests "extends" rfl rfl) n Rank.call base
    exact ((Nests.consPlain rfl rfl hname).append hbase).append_closed
      (.cons_space ((membersPieces_balanced (n + 1) members).braced n))

theorem ClassMember.balanced (n : Nat) : ∀ m : ClassMember, Balanced (m.pieces n)
  | .method key kind isStatic f =>
    (spacedIf_balanced isStatic rfl).append (f.methodPieces_balanced n kind (key.balanced n))
  | .field key isStatic value => by
    have hvalue := (exprPieces?_nests initial_nests n Rank.assign value).balanced
    exact (((spacedIf_balanced isStatic rfl).append (key.balanced n)).append hvalue).append
      (.cons_sym rfl .nil)
  | .staticBlock body => by
    have hbody := (stmtLines_balanced (n + 1) body).braced n
    exact .cons_sym rfl (.cons_space hbody.balanced)

theorem membersPieces_balanced (n : Nat) : ∀ ms : List ClassMember, AllBalanced (membersPieces n ms)
  | [] => .nil
  | m :: ms => .cons (m.balanced n) (membersPieces_balanced n ms)

theorem Declarator.nests (n : Nat) : ∀ d : Declarator, Nests (d.pieces n) d.dividers
  | ⟨target, init⟩ => (target.nests n).append (exprPieces?_nests initial_nests n Rank.assign init)

theorem declaratorsPieces_nests (n : Nat) : ∀ ds : List Declarator,
    Nests (commaSeparated (declaratorsPieces n ds)) (declaratorsDividers ds)
  | [] => .nil
  | [d] => d.nests n
  | d :: d' :: ds => (d.nests n).append (comma_nests.append (declaratorsPieces_nests n (d' :: ds)))

theorem VarList.nests (n : Nat) : ∀ list : VarList,
    Nests (list.pieces n) (declaratorsDividers list.declarators)
  | ⟨kind, declarators⟩ => by
    have hkeyword : Nests [.sym kind.text, .space] [] := by
      cases kind <;> exact .consPlain rfl rfl (.cons_space .nil)
    exact hkeyword.append (declaratorsPieces_nests n declarators)

theorem ForInit.nests (n : Nat) : ∀ init : ForInit, Nests (init.pieces n) init.dividers
  | .absent => .nil
  | .var list => list.nests n
  | .expr e => e.nests n

theorem ForHead.balanced (n : Nat) : ∀ head : ForHead, Balanced (head.pieces n)
  | .var list => (list.nests n).balanced
  | .pattern p => (p.nests n).balanced

theorem Catch.balanced (n : Nat) : ∀ c : Catch, Balanced (c.pieces n)
  | ⟨none, body⟩ => by
    have hbody := (stmtLines_balanced (n + 1) body).braced n
    exact .cons_sym rfl (.cons_space hbody.balanced)
  | ⟨some param, body⟩ => by
    have hbody := (stmtLines_balanced (n + 1) body).braced n
    have hparam := (param.nests n).balanced.enclosed (o := "(") (c := ")") rfl rfl
    exact .append (.cons_sym rfl (.cons_space hparam)) (.cons_space hbody.balanced)

theorem catchPieces?_balanced (n : Nat) : ∀ c : Option Catch, Balanced (catchPieces? n c)
  | none => .nil
  | some c => .cons_space (c.balanced n)

theorem finallyPieces?_balanced (n : Nat) : ∀ body : Option (List Stmt),
    Balanced (finallyPieces? n body)
  | none => .nil
  | some body => by
    have hbody := (stmtLines_balanced (n + 1) body).braced n
    exact .cons_space (.cons_sym rfl (.cons_space hbody.balanced))

theorem Case.balanced (n : Nat) : ∀ c : Case, Balanced (c.pieces n)
  | ⟨none, body⟩ => .cons_sym rfl (.cons_sym rfl ((stmtLines_balanced (n + 1) body).lines _))
  | ⟨some test, body⟩ =>
    .append (.cons_sym rfl (.cons_space (test.nests n).balanced))
      (.cons_sym rfl ((stmtLines_balanced (n + 1) body).lines _))

theorem casesPieces_balanced (n : Nat) : ∀ cs : List Case, AllBalanced (casesPieces n cs)
  | [] => .nil
  | c :: cs => .cons (c.balanced n) (casesPieces_balanced n cs)

theorem stmtLines_balanced (n : Nat) : ∀ ss : List Stmt, AllBalanced (stmtLines n ss)
  | [] => .nil
  | s :: ss => .ite _ (stmtLines_balanced n ss) (.cons (s.balanced n) (stmtLines_balanced n ss))

theorem Stmt.balanced (n : Nat) : ∀ s : Stmt, Balanced (s.pieces n)
  | .expr e => ((e.nests n).balanced.parenthesized _).append (.cons_sym rfl .nil)
  | .var modifiers list =>
    (modifiers.balanced.append (list.nests n).balanced).append (.cons_sym rfl .nil)
  | .function modifiers f => modifiers.balanced.append (f.nests n).balanced
  | .classDecl modifiers c => modifiers.balanced.append (c.nests n).balanced
  | .importFrom _ clause specifier isTypeOnly => by
    have hclause : Balanced
        (clause.toList.flatMap fun c => c.pieces ++ [.space, .sym "from", .space]) :=
      .flatMap fun c _ => c.balanced.append (spaced_nests "from" rfl rfl).balanced
    exact ((Balanced.append (.cons_sym rfl (.cons_space (spacedIf_balanced isTypeOnly rfl)))
      hclause).append (specifier.nests n).balanced).append (.cons_sym rfl .nil)
  | .importEquals _ isExported name kind value => by
    have hvalue := (value.nests n).balanced
    have hlead {ps : List Piece} (h : Balanced ps) : Balanced (.sym "import" :: .space :: .ident name
        :: .space :: .sym "=" :: .space :: ps) :=
      .cons_sym rfl (.cons_space (.cons_ident name (.cons_space (.cons_sym rfl (.cons_space h)))))
    cases kind with
    | require =>
      exact ((spacedIf_balanced isExported rfl).append
        (hlead (.cons_name _ (hvalue.enclosed rfl rfl)))).append (.cons_sym rfl .nil)
    | entity =>
      exact ((spacedIf_balanced isExported rfl).append (hlead hvalue)).append (.cons_sym rfl .nil)
  | .exportFrom _ clause specifier isTypeOnly => by
    have hspecifier := (exprPieces?_nests (spaced_nests "from" rfl rfl) n Rank.sequence
      specifier).balanced
    exact ((Balanced.append (.cons_sym rfl (.cons_space (spacedIf_balanced isTypeOnly rfl)))
      (exportClausePieces_balanced clause)).append hspecifier).append (.cons_sym rfl .nil)
  | .exportValue _ form value => by
    have hvalue := (value.nests n).balanced.parenthesized (value.rank < Rank.assign)
    cases form <;>
      exact .append (.cons_sym rfl (.cons_space (.cons_sym rfl (.cons_space hvalue))))
        (.cons_sym rfl .nil)
  | .ambient _ _ => .nil
  | .block body =>
    .ite _ ((Balanced.cons_space .nil).enclosed rfl rfl)
      ((stmtLines_balanced (n + 1) body).braced n).balanced
  | .ifThen test yes => by
    have htest := (test.nests n).balanced.enclosed (o := "(") (c := ")") rfl rfl
    exact .append (.cons_sym rfl (.cons_space htest)) (.cons_space (yes.balanced n))
  | .ifElse test yes no => by
    have htest := (test.nests n).balanced.enclosed (o := "(") (c := ")") rfl rfl
    exact .append (.append (.cons_sym rfl (.cons_space htest)) (.cons_space (yes.balanced n)))
      (gapAfter_balanced n yes (.cons_sym rfl (.cons_space (no.balanced n))))
  | .forLoop init test update body => by
    have htest := exprPieces?_nests (.word (p := .space) (by simp)) n Rank.sequence test
    have hupdate := exprPieces?_nests (.word (p := .space) (by simp)) n Rank.sequence update
    have hhead := balanced_parts (init.nests n).balanced htest.balanced hupdate.balanced
    exact .append (.cons_sym rfl (.cons_space (hhead.enclosed rfl rfl)))
      (.cons_space (body.balanced n))
  | .forIn head object body => by
    have hhead := balanced_around "in" rfl (head.balanced n) (object.nests n).balanced
    exact .append (.cons_sym rfl (.cons_space (hhead.enclosed rfl rfl)))
      (.cons_space (body.balanced n))
  | .forOf head iterable body isAwait => by
    have hhead := balanced_around "of" rfl (head.balanced n)
      ((iterable.nests n).balanced.parenthesized (iterable.rank < Rank.assign))
    exact .append (.append (.cons_sym rfl (.cons_space (spacedIf_balanced isAwait rfl)))
      (hhead.enclosed rfl rfl)) (.cons_space (body.balanced n))
  | .whileLoop test body => by
    have htest := (test.nests n).balanced.enclosed (o := "(") (c := ")") rfl rfl
    exact .append (.cons_sym rfl (.cons_space htest)) (.cons_space (body.balanced n))
  | .doWhile body test => by
    have htest := (test.nests n).balanced.enclosed (o := "(") (c := ")") rfl rfl
    exact .append (.append (.cons_sym rfl (.cons_space (body.balanced n)))
      (gapAfter_balanced n body (.cons_sym rfl (.cons_space htest)))) (.cons_sym rfl .nil)
  | .tryCatch body handler finalizer => by
    have hbody := ((stmtLines_balanced (n + 1) body).braced n).balanced
    exact .append (.append (.cons_sym rfl (.cons_space hbody)) (catchPieces?_balanced n handler))
      (finallyPieces?_balanced n finalizer)
  | .switch subject cases => by
    have hsubject := (subject.nests n).balanced.enclosed (o := "(") (c := ")") rfl rfl
    have hcases := ((casesPieces_balanced (n + 1) cases).braced n).balanced
    exact .append (.cons_sym rfl (.cons_space hsubject)) (.cons_space hcases)
  | .labeled label body => .cons_name label (.cons_sym rfl (.cons_space (body.balanced n)))
  | .withObject object body => by
    have hobject := (object.nests n).balanced.enclosed (o := "(") (c := ")") rfl rfl
    exact .append (.cons_sym rfl (.cons_space hobject)) (.cons_space (body.balanced n))
  | .ret arg => by
    have harg := exprPieces?_nests (.word (p := .space) (by simp)) n Rank.sequence arg
    exact .append (.cons_sym rfl harg.balanced) (.cons_sym rfl .nil)
  | .throw arg => .append (.cons_sym rfl (.cons_space (arg.nests n).balanced)) (.cons_sym rfl .nil)
  | .breakTo label | .continueTo label => jumpPieces_balanced rfl label
  | .empty => .cons_sym rfl .nil
  | .debugger => .cons_sym rfl (.cons_sym rfl .nil)

end

/-- Where a first part of a loop shows `in`. -/
theorem ForInit.showsIn_pieces (n : Nat) (init : ForInit) :
    RegisterForm.showsIn 0 (init.pieces n) = init.showsIn := by
  rw [(init.nests n).shown_eq, Bool.eq_iff_iff, List.contains_iff_mem, init.showsIn_iff]

end RegisterForm
