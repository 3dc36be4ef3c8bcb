import RegisterForm.Print.Tree
import RegisterForm.Proofs.Renumber.Tree
/-!
# Printing renumbered trees

A number is never printed: the pieces of a renumbered tree are those of the tree with their
identifiers renumbered, and their text is the same.
-/
namespace RegisterForm

variable (r : Renumbering)

/-! ## Ranks -/

namespace Expr

@[simp] theorem rank_renumber (e : Expr) : (e.renumber r).rank = e.rank := by
  cases e with
  | update op isPrefix arg => cases isPrefix <;> rfl
  | _ => rfl

@[simp] theorem mergesWithSign_renumber (op : UnaryOp) (e : Expr) :
    (e.renumber r).mergesWithSign op = e.mergesWithSign op := by
  cases op with
  | minus | plus =>
    cases e with
    | unary op' arg => cases op' <;> rfl
    | update op' isPrefix arg => cases op' <;> cases isPrefix <;> rfl
    | _ => rfl
  | _ => rfl

@[simp] theorem isUnaryLike_renumber (e : Expr) : (e.renumber r).isUnaryLike = e.isUnaryLike := by
  cases e <;> rfl

@[simp] theorem clashesWith_renumber (op : BinaryOp) (e : Expr) :
    (e.renumber r).clashesWith op = e.clashesWith op := by
  cases op with
  | nullish | and | or =>
    cases e with
    | binary op' left right => cases op' <;> rfl
    | _ => rfl
  | _ => rfl

@[simp] theorem isPlainCallee_renumber :
    (e : Expr) → (e.renumber r).isPlainCallee = e.isPlainCallee
  | .member owner _ _ => owner.isPlainCallee_renumber
  | .index owner _ _ => owner.isPlainCallee_renumber
  | .ident _ | .literal _ | .template _ _ | .tagged _ _ _ | .this | .super | .array _ | .object _
  | .function _ | .arrow _ _ _ | .classExpr _ | .unary _ _ | .update _ _ _ | .binary _ _ _
  | .assign _ _ _ | .conditional _ _ _ | .call _ _ _ | .newBare _ | .newCall _ _
  | .sequence _ | .paren _ | .yield _ _ | .await _ | .spread _ | .importCall _ | .importMeta => rfl

@[simp] theorem isNumber_renumber (e : Expr) : (e.renumber r).isNumber = e.isNumber := by
  cases e <;> rfl

@[simp] theorem isObject_renumber (e : Expr) : (e.renumber r).isObject = e.isObject := by
  cases e <;> rfl

@[simp] theorem isFunctionLike_renumber (e : Expr) :
    (e.renumber r).isFunctionLike = e.isFunctionLike := by
  cases e <;> rfl

end Expr

@[simp] theorem Stmt.isAmbient_renumber (s : Stmt) : (s.renumber r).isAmbient = s.isAmbient := by
  cases s <;> rfl

@[simp] theorem Stmt.isBlock_renumber (s : Stmt) : (s.renumber r).isBlock = s.isBlock := by
  cases s <;> rfl

/-! ## Pieces -/

namespace Piece

def renumber : Piece → Piece
  | ident x => ident (x.renumber r)
  | p => p

@[simp] theorem chars_renumber (p : Piece) : (p.renumber r).chars = p.chars := by cases p <;> rfl

theorem flatMap_chars_renumber (ps : List Piece) :
    (ps.map (·.renumber r)).flatMap chars = ps.flatMap chars := by
  rw [List.flatMap_map]
  exact congrArg ps.flatMap (funext (chars_renumber r))

@[simp] theorem render_renumber (ps : List Piece) : render (ps.map (·.renumber r)) = render ps := by
  rw [render, flatMap_chars_renumber, render]

@[simp] theorem leading_renumber (n : Nat) (ps : List Piece) :
    leading n (ps.map (·.renumber r)) = leading n ps := by
  rw [leading_eq_take, flatMap_chars_renumber, leading_eq_take]

/-- The second list shows the identifiers of the first under their new numbers. -/
def Shows (ps ps' : List Piece) : Prop := ps' = ps.map (·.renumber r)

/-- The same for lists of items. -/
def ShowsAll (items items' : List (List Piece)) : Prop :=
  items' = items.map (List.map (·.renumber r))

end Piece

open Piece (Shows ShowsAll)

namespace Piece.Shows
variable {r} {p : Piece} {ps ps' qs qs' : List Piece} {items items' more more' : List (List Piece)}

theorem nil : Shows r [] [] := rfl

theorem own (ps : List Piece) : Shows r ps (ps.map (·.renumber r)) := rfl

theorem all_own (items : List (List Piece)) :
    ShowsAll r items (items.map (List.map (·.renumber r))) := rfl

theorem cons (h : Shows r ps ps') : Shows r (p :: ps) (p.renumber r :: ps') :=
  congrArg (p.renumber r :: ·) h

theorem append (h : Shows r ps ps') (h' : Shows r qs qs') : Shows r (ps ++ qs) (ps' ++ qs') := by
  rw [Shows, h, h', List.map_append]

theorem ite {c : Prop} [Decidable c] (h : Shows r ps ps') (h' : Shows r qs qs') :
    Shows r (if c then ps else qs) (if c then ps' else qs') := by
  by_cases hc : c
  · rwa [if_pos hc, if_pos hc]
  · rwa [if_neg hc, if_neg hc]

/-- A choice that is made alike for both. -/
theorem choice {b b' : Bool} (hb : b' = b) (h : Shows r ps ps') (h' : Shows r qs qs') :
    Shows r (if b then ps else qs) (if b' then ps' else qs') := by
  subst hb
  exact ite h h'

theorem ofIdent? (x : Option Ident) : Shows r (identPieces? x) (identPieces? (x.map (·.renumber r))) := by
  cases x <;> rfl

theorem between {opening closing : String} (h : Shows r ps ps') :
    Shows r (enclosed opening closing ps) (enclosed opening closing ps') :=
  append (cons h) (cons nil)

theorem guarded {needed needed' : Bool} (hneeded : needed' = needed) (h : Shows r ps ps') :
    Shows r (parenthesized needed ps) (parenthesized needed' ps') := by
  subst hneeded
  exact ite h.between h

/-- An expression in a slot that asks for a rank. -/
theorem slot {min : Rank} {e : Expr} (h : Shows r ps ps') :
    Shows r (parenthesized (e.rank < min) ps)
      (parenthesized ((e.renumber r).rank < min) ps') :=
  guarded (by rw [Expr.rank_renumber]) h

theorem keyword (wanted : Bool) (text : String) :
    Shows r (spacedIf wanted text) (spacedIf wanted text) := by
  cases wanted <;> rfl

theorem modifiers (m : Modifiers) : Shows r m.pieces m.pieces :=
  append (keyword _ _) (keyword _ _)

theorem methodKind (kind : MethodKind) : Shows r kind.pieces kind.pieces := by
  cases kind <;> rfl

theorem jump (keyword : String) (label : Option String) :
    Shows r (jumpPieces keyword label) (jumpPieces keyword label) := by
  cases label <;> rfl

theorem hole {wanted wanted' : Bool} (hwanted : wanted' = wanted) :
    Shows r (trailingHole wanted) (trailingHole wanted') := by
  subst hwanted
  cases wanted' <;> rfl

theorem gap (n : Nat) (body : Stmt) (h : Shows r ps ps') :
    Shows r (gapAfter n body :: ps) (gapAfter n (body.renumber r) :: ps') := by
  unfold gapAfter
  rw [body.isBlock_renumber]
  cases body.isBlock <;> exact cons h

theorem line (n : Nat) : Shows r [.line n] [.line n] := rfl

theorem all_nil : ShowsAll r [] [] := rfl

theorem all_cons (h : Shows r ps ps') (hitems : ShowsAll r items items') :
    ShowsAll r (ps :: items) (ps' :: items') := by
  rw [ShowsAll, h, hitems, List.map_cons]

theorem all_append (h : ShowsAll r items items') (h' : ShowsAll r more more') :
    ShowsAll r (items ++ more) (items' ++ more') := by
  rw [ShowsAll, h, h', List.map_append]

theorem all_map {α : Type} {pieces : α → List Piece} {change : α → α}
    (h : ∀ a, Shows r (pieces a) (pieces (change a))) (as : List α) :
    ShowsAll r (as.map pieces) ((as.map change).map pieces) := by
  rw [ShowsAll, List.map_map, List.map_map]
  exact List.map_congr_left fun a _ => h a

theorem commas : {items items' : List (List Piece)} → ShowsAll r items items' →
    Shows r (commaSeparated items) (commaSeparated items')
  | [], _, h => by
    rw [h]
    rfl
  | [_], _, h => by
    rw [h]
    rfl
  | item₁ :: item₂ :: items, _, h => by
    rw [h]
    exact append (own item₁) (cons (cons (commas (all_own (item₂ :: items)))))

theorem lines (n : Nat) : {items items' : List (List Piece)} → ShowsAll r items items' →
    Shows r (commaLines n items) (commaLines n items')
  | [], _, h => by
    rw [h]
    rfl
  | [_], _, h => by
    rw [h]
    rfl
  | item₁ :: item₂ :: items, _, h => by
    rw [h]
    exact append (cons (own item₁)) (cons (lines n (all_own (item₂ :: items))))

theorem flatMap_line (n : Nat) (h : ShowsAll r items items') :
    Shows r (items.flatMap (.line n :: ·)) (items'.flatMap (.line n :: ·)) := by
  rw [Shows, h, List.flatMap_map, List.map_flatMap]
  rfl

theorem inBraces (n : Nat) (h : ShowsAll r items items') :
    Shows r (braced n items) (braced n items') :=
  append (cons (flatMap_line (n + 1) h)) (cons (cons nil))

theorem nameList (h : ShowsAll r items items') :
    Shows r (bracedNames items) (bracedNames items') := by
  have hitems := commas h
  cases items with
  | nil =>
    rw [h]
    rfl
  | cons item items =>
    rw [h] at hitems ⊢
    exact append (cons (cons hitems)) (cons (cons nil))

theorem inTemplate : (chunks : List String) → {parts parts' : List (List Piece)} →
    ShowsAll r parts parts' → Shows r (templatePieces chunks parts) (templatePieces chunks parts')
  | [], _, _, _ => rfl
  | _ :: chunks, [], _, h => by
    rw [h]
    exact cons (inTemplate chunks all_nil)
  | _ :: chunks, part :: parts, _, h => by
    rw [h]
    exact append (cons (between (own part))) (inTemplate chunks (all_own parts))

end Piece.Shows

open Piece.Shows

/-! ## Clauses -/

section Clauses
variable {r}

theorem ImportSpecifier.pieces_renumber (s : ImportSpecifier) :
    Shows r s.pieces (s.renumber r).pieces := by
  obtain ⟨imported, binding, isTypeOnly⟩ := s
  refine append (append (keyword isTypeOnly "type") ?_) (cons nil)
  cases imported <;> rfl

theorem ImportBindings.pieces_renumber (b : ImportBindings) :
    Shows r b.pieces (b.renumber r).pieces := by
  cases b with
  | star x => rfl
  | named specifiers => exact nameList (all_map ImportSpecifier.pieces_renumber specifiers)

theorem ImportClause.pieces_renumber (c : ImportClause) :
    Shows r c.pieces (c.renumber r).pieces := by
  obtain ⟨default, bindings⟩ := c
  refine commas (all_append ?_ ?_)
  · cases default <;> rfl
  · cases bindings with
    | none => exact all_nil
    | some b => exact all_cons b.pieces_renumber all_nil

theorem ExportSpecifier.pieces_renumber (s : ExportSpecifier) :
    Shows r s.pieces (s.renumber r).pieces := by
  obtain ⟨id, source, exported, isTypeOnly⟩ := s
  refine append (keyword isTypeOnly "type") (cons ?_)
  cases exported <;> rfl

theorem exportClausePieces_renumber (c : Option ExportClause) :
    Shows r (exportClausePieces c) (exportClausePieces (c.map (·.renumber r))) := by
  cases c with
  | none => rfl
  | some c =>
    cases c with
    | star x => rfl
    | named specifiers => exact nameList (all_map ExportSpecifier.pieces_renumber specifiers)

end Clauses

/-! ## Trees -/

theorem endsInHole_map {α : Type} (change : α → α) (elements : List (Option α)) :
    endsInHole (elements.map (Option.map change)) = endsInHole elements := by
  rw [endsInHole, List.getLast?_map, Option.any_map, endsInHole]
  exact congrArg (Option.any · _) (funext fun e => Option.isNone_map)

section Trees
variable {r}

mutual

theorem Expr.pieces_renumber (n : Nat) : (e : Expr) → Shows r (e.pieces n) ((e.renumber r).pieces n)
  | .ident _ => cons nil
  | .literal value => by cases value <;> first | rfl | (next b => cases b <;> rfl)
  | .template chunks parts => between (inTemplate chunks (exprsPieces_renumber n _ parts))
  | .tagged tag chunks parts =>
    append (slot (tag.pieces_renumber n))
      (between (inTemplate chunks (exprsPieces_renumber n _ parts)))
  | .this => cons nil
  | .super => cons nil
  | .array elements => by
    have hany : (renumberSlots r elements).any (·.any Expr.isFunctionLike) =
        elements.any (·.any Expr.isFunctionLike) := by
      rw [renumberSlots_eq, List.any_map]
      refine congrArg elements.any (funext fun e => ?_)
      cases e with
      | none => rfl
      | some e => exact e.isFunctionLike_renumber r
    have hhole : endsInHole (renumberSlots r elements) = endsInHole elements := by
      rw [renumberSlots_eq, endsInHole_map]
    exact choice hany (between (append (lines _ (slotsPieces_renumber _ elements)) (line n)))
      (between (append (commas (slotsPieces_renumber n elements)) (hole hhole)))
  | .object [] => cons (cons nil)
  | .object (p :: ps) =>
    between (append
      (lines _ (all_cons (p.pieces_renumber _) (propertiesPieces_renumber _ ps))) (line n))
  | .function f => f.pieces_renumber n
  | .arrow params body isAsync =>
    append (append (keyword isAsync "async")
      (between (commas (paramsPieces_renumber n params))))
      (cons (cons (cons (body.pieces_renumber n))))
  | .classExpr c => c.pieces_renumber n
  | .unary op arg =>
    append (cons (choice (congrArg (op.isKeyword || ·) (arg.mergesWithSign_renumber r op))
      (cons nil) nil)) (slot (arg.pieces_renumber n))
  | .update op true arg => cons (slot (arg.pieces_renumber n))
  | .update op false arg => append (slot (arg.pieces_renumber n)) (cons nil)
  | .binary op left right =>
    append (guarded (by simp only [Expr.clashesWith_renumber, Expr.isUnaryLike_renumber,
        Expr.rank_renumber]) (left.pieces_renumber n))
      (cons (cons (cons (guarded (by rw [Expr.clashesWith_renumber, Expr.rank_renumber])
        (right.pieces_renumber n)))))
  | .assign op target value =>
    append (target.pieces_renumber n) (cons (cons (cons (slot (value.pieces_renumber n)))))
  | .conditional test yes no =>
    append (append (slot (test.pieces_renumber n))
      (cons (cons (cons (slot (yes.pieces_renumber n))))))
      (cons (cons (cons (slot (no.pieces_renumber n)))))
  | .call callee args isOptional =>
    append (append (slot (callee.pieces_renumber n)) (ite (cons nil) nil))
      (between (commas (exprsPieces_renumber n _ args)))
  | .newBare callee =>
    cons (cons (guarded (by rw [callee.isPlainCallee_renumber]) (callee.pieces_renumber n)))
  | .newCall callee args =>
    append (cons (cons (guarded (by rw [callee.isPlainCallee_renumber])
      (callee.pieces_renumber n)))) (between (commas (exprsPieces_renumber n _ args)))
  | .member owner _ _ =>
    append (guarded (by rw [owner.rank_renumber, owner.isNumber_renumber])
      (owner.pieces_renumber n)) (cons (cons nil))
  | .index owner key _ =>
    append (append (guarded (by rw [owner.rank_renumber, owner.isNumber_renumber])
      (owner.pieces_renumber n)) (ite (cons nil) nil)) (between (key.pieces_renumber n))
  | .sequence exprs => commas (exprsPieces_renumber n _ exprs)
  | .paren inner => between (inner.pieces_renumber n)
  | .yield arg _ => cons (exprPieces?_renumber n _ (cons nil) arg)
  | .await arg => cons (cons (slot (arg.pieces_renumber n)))
  | .spread arg => cons (slot (arg.pieces_renumber n))
  | .importCall specifier => cons (between (slot (specifier.pieces_renumber n)))
  | .importMeta => cons (cons (cons nil))

theorem exprsPieces_renumber (n : Nat) (min : Rank) : (es : List Expr) →
    ShowsAll r (exprsPieces n min es) (exprsPieces n min (renumberExprs r es))
  | [] => all_nil
  | e :: es => all_cons (slot (e.pieces_renumber n)) (exprsPieces_renumber n min es)

theorem exprPieces?_renumber (n : Nat) (min : Rank) {intro : List Piece}
    (hintro : Shows r intro intro) : (e : Option Expr) →
    Shows r (exprPieces? intro n min e) (exprPieces? intro n min (renumberExpr? r e))
  | none => nil
  | some e => append hintro (slot (e.pieces_renumber n))

theorem slotsPieces_renumber (n : Nat) : (es : List (Option Expr)) →
    ShowsAll r (slotsPieces n es) (slotsPieces n (renumberSlots r es))
  | [] => all_nil
  | e :: es => all_cons (exprPieces?_renumber n _ nil e) (slotsPieces_renumber n es)

theorem Key.pieces_renumber (n : Nat) :
    (key : Key) → Shows r (key.pieces n) ((key.renumber r).pieces n)
  | .name _ | .string _ | .number _ => cons nil
  | .computed e => between (slot (e.pieces_renumber n))

theorem Property.pieces_renumber (n : Nat) :
    (p : Property) → Shows r (p.pieces n) ((p.renumber r).pieces n)
  | .keyed key value =>
    append (key.pieces_renumber n) (cons (cons (slot (value.pieces_renumber n))))
  | .shorthand _ => cons nil
  | .method key kind f => f.methodPieces_renumber n kind (key.pieces_renumber n)
  | .spread e => cons (slot (e.pieces_renumber n))

theorem propertiesPieces_renumber (n : Nat) : (ps : List Property) →
    ShowsAll r (propertiesPieces n ps) (propertiesPieces n (renumberProperties r ps))
  | [] => all_nil
  | p :: ps => all_cons (p.pieces_renumber n) (propertiesPieces_renumber n ps)

theorem Pattern.pieces_renumber (n : Nat) :
    (p : Pattern) → Shows r (p.pieces n) ((p.renumber r).pieces n)
  | .ident _ => cons nil
  | .expr e => slot (e.pieces_renumber n)
  | .object properties rest =>
    nameList (all_append (patternPropertiesPieces_renumber n properties)
      (restPieces_renumber n rest))
  | .array elements rest => by
    have hhole : endsInHole (renumberPatternSlots r elements) = endsInHole elements := by
      rw [renumberPatternSlots_eq, endsInHole_map]
    have hnone : (renumberPattern? r rest).isNone = rest.isNone := by cases rest <;> rfl
    exact between (append (commas (all_append (patternSlotsPieces_renumber n elements)
      (restPieces_renumber n rest))) (hole (by rw [hhole, hnone])))

theorem restPieces_renumber (n : Nat) : (p : Option Pattern) →
    ShowsAll r (restPieces n p) (restPieces n (renumberPattern? r p))
  | none => all_nil
  | some p => all_cons (cons (p.pieces_renumber n)) all_nil

theorem PatternProperty.pieces_renumber (n : Nat) :
    (p : PatternProperty) → Shows r (p.pieces n) ((p.renumber r).pieces n)
  | .keyed key target fallback =>
    append (append (key.pieces_renumber n) (cons (cons (target.pieces_renumber n))))
      (exprPieces?_renumber n _ (cons (cons (cons nil))) fallback)
  | .shorthand _ fallback => cons (exprPieces?_renumber n _ (cons (cons (cons nil))) fallback)

theorem patternPropertiesPieces_renumber (n : Nat) : (ps : List PatternProperty) →
    ShowsAll r (patternPropertiesPieces n ps)
      (patternPropertiesPieces n (renumberPatternProperties r ps))
  | [] => all_nil
  | p :: ps => all_cons (p.pieces_renumber n) (patternPropertiesPieces_renumber n ps)

theorem PatternElement.pieces_renumber (n : Nat) :
    (e : PatternElement) → Shows r (e.pieces n) ((e.renumber r).pieces n)
  | ⟨target, fallback⟩ =>
    append (target.pieces_renumber n) (exprPieces?_renumber n _ (cons (cons (cons nil))) fallback)

theorem patternSlotPieces_renumber (n : Nat) : (e : Option PatternElement) →
    Shows r (patternSlotPieces n e) (patternSlotPieces n (renumberPatternSlot r e))
  | none => nil
  | some e => e.pieces_renumber n

theorem patternSlotsPieces_renumber (n : Nat) : (es : List (Option PatternElement)) →
    ShowsAll r (patternSlotsPieces n es) (patternSlotsPieces n (renumberPatternSlots r es))
  | [] => all_nil
  | e :: es => all_cons (patternSlotPieces_renumber n e) (patternSlotsPieces_renumber n es)

theorem Param.pieces_renumber (n : Nat) :
    (p : Param) → Shows r (p.pieces n) ((p.renumber r).pieces n)
  | ⟨pattern, fallback, _⟩ =>
    append (append (ite (cons nil) nil) (pattern.pieces_renumber n))
      (exprPieces?_renumber n _ (cons (cons (cons nil))) fallback)

theorem paramsPieces_renumber (n : Nat) : (ps : List Param) →
    ShowsAll r (paramsPieces n ps) (paramsPieces n (renumberParams r ps))
  | [] => all_nil
  | p :: ps => all_cons (p.pieces_renumber n) (paramsPieces_renumber n ps)

theorem Func.pieces_renumber (n : Nat) :
    (f : Func) → Shows r (f.pieces n) ((f.renumber r).pieces n)
  | ⟨name, params, body, isAsync, _⟩ =>
    append (append (append (append (keyword isAsync "async") (cons (ite (cons nil) nil)))
      (cons (ofIdent? name))) (between (commas (paramsPieces_renumber n params))))
      (cons (inBraces n (stmtLines_renumber (n + 1) body)))

theorem Func.methodPieces_renumber (n : Nat) (kind : MethodKind) {key key' : List Piece}
    (hkey : Shows r key key') :
    (f : Func) → Shows r (f.methodPieces n kind key) ((f.renumber r).methodPieces n kind key')
  | ⟨_, params, body, isAsync, _⟩ =>
    append (append (append (append (append (methodKind kind) (keyword isAsync "async"))
      (ite (cons nil) nil)) (ite (cons nil) hkey))
      (between (commas (paramsPieces_renumber n params))))
      (cons (inBraces n (stmtLines_renumber (n + 1) body)))

theorem ArrowBody.pieces_renumber (n : Nat) :
    (body : ArrowBody) → Shows r (body.pieces n) ((body.renumber r).pieces n)
  | .block body => inBraces n (stmtLines_renumber (n + 1) body)
  | .expr e =>
    guarded (by rw [e.isObject_renumber, e.rank_renumber]) (e.pieces_renumber n)

theorem Class.pieces_renumber (n : Nat) :
    (c : Class) → Shows r (c.pieces n) ((c.renumber r).pieces n)
  | ⟨name, base, members⟩ =>
    append (append (cons (by cases name <;> rfl))
      (exprPieces?_renumber n _ (cons (cons (cons nil))) base))
      (cons (inBraces n (membersPieces_renumber (n + 1) members)))

theorem ClassMember.pieces_renumber (n : Nat) :
    (m : ClassMember) → Shows r (m.pieces n) ((m.renumber r).pieces n)
  | .method key kind isStatic f =>
    append (keyword isStatic "static") (f.methodPieces_renumber n kind (key.pieces_renumber n))
  | .field key isStatic value =>
    append (append (append (keyword isStatic "static") (key.pieces_renumber n))
      (exprPieces?_renumber n _ (cons (cons (cons nil))) value)) (cons nil)
  | .staticBlock body => cons (cons (inBraces n (stmtLines_renumber (n + 1) body)))

theorem membersPieces_renumber (n : Nat) : (ms : List ClassMember) →
    ShowsAll r (membersPieces n ms) (membersPieces n (renumberMembers r ms))
  | [] => all_nil
  | m :: ms => all_cons (m.pieces_renumber n) (membersPieces_renumber n ms)

theorem Declarator.pieces_renumber (n : Nat) :
    (d : Declarator) → Shows r (d.pieces n) ((d.renumber r).pieces n)
  | ⟨target, init⟩ =>
    append (target.pieces_renumber n) (exprPieces?_renumber n _ (cons (cons (cons nil))) init)

theorem declaratorsPieces_renumber (n : Nat) : (ds : List Declarator) →
    ShowsAll r (declaratorsPieces n ds) (declaratorsPieces n (renumberDeclarators r ds))
  | [] => all_nil
  | d :: ds => all_cons (d.pieces_renumber n) (declaratorsPieces_renumber n ds)

theorem VarList.pieces_renumber (n : Nat) :
    (list : VarList) → Shows r (list.pieces n) ((list.renumber r).pieces n)
  | ⟨_, declarators⟩ =>
    cons (cons (commas (declaratorsPieces_renumber n declarators)))

theorem ForInit.pieces_renumber (n : Nat) :
    (init : ForInit) → Shows r (init.pieces n) ((init.renumber r).pieces n)
  | .absent => nil
  | .var list => list.pieces_renumber n
  | .expr e => e.pieces_renumber n

theorem ForHead.pieces_renumber (n : Nat) :
    (head : ForHead) → Shows r (head.pieces n) ((head.renumber r).pieces n)
  | .var list => list.pieces_renumber n
  | .pattern p => p.pieces_renumber n

theorem Catch.pieces_renumber (n : Nat) :
    (c : Catch) → Shows r (c.pieces n) ((c.renumber r).pieces n)
  | ⟨none, body⟩ => cons (cons (inBraces n (stmtLines_renumber (n + 1) body)))
  | ⟨some param, body⟩ =>
    append (cons (cons (between (param.pieces_renumber n))))
      (cons (inBraces n (stmtLines_renumber (n + 1) body)))

theorem catchPieces?_renumber (n : Nat) :
    (c : Option Catch) → Shows r (catchPieces? n c) (catchPieces? n (renumberCatch? r c))
  | none => nil
  | some c => cons (c.pieces_renumber n)

theorem finallyPieces?_renumber (n : Nat) : (body : Option (List Stmt)) →
    Shows r (finallyPieces? n body) (finallyPieces? n (renumberBlock? r body))
  | none => nil
  | some body => cons (cons (cons (inBraces n (stmtLines_renumber (n + 1) body))))

theorem Case.pieces_renumber (n : Nat) :
    (c : Case) → Shows r (c.pieces n) ((c.renumber r).pieces n)
  | ⟨none, body⟩ => cons (cons (flatMap_line (n + 1) (stmtLines_renumber (n + 1) body)))
  | ⟨some test, body⟩ =>
    append (cons (cons (test.pieces_renumber n)))
      (cons (flatMap_line (n + 1) (stmtLines_renumber (n + 1) body)))

theorem casesPieces_renumber (n : Nat) : (cs : List Case) →
    ShowsAll r (casesPieces n cs) (casesPieces n (renumberCases r cs))
  | [] => all_nil
  | c :: cs => all_cons (c.pieces_renumber n) (casesPieces_renumber n cs)

theorem stmtLines_renumber (n : Nat) : (ss : List Stmt) →
    ShowsAll r (stmtLines n ss) (stmtLines n (renumberStmts r ss))
  | [] => all_nil
  | s :: ss => by
    have hlines := stmtLines_renumber n ss
    have hline := s.pieces_renumber n
    change ShowsAll r (if s.isAmbient then _ else _) (if (s.renumber r).isAmbient then _ else _)
    rw [Stmt.isAmbient_renumber]
    split
    · exact hlines
    · exact all_cons hline hlines

theorem Stmt.pieces_renumber (n : Nat) :
    (s : Stmt) → Shows r (s.pieces n) ((s.renumber r).pieces n)
  | .expr e => by
    have he := e.pieces_renumber n
    have hstart : startsAmbiguously ((e.renumber r).pieces n) = startsAmbiguously (e.pieces n) := by
      rw [he, startsAmbiguously, Piece.leading_renumber, startsAmbiguously]
    exact append (guarded hstart he) (cons nil)
  | .var m list => append (append (modifiers m) (list.pieces_renumber n)) (cons nil)
  | .function m f => append (modifiers m) (f.pieces_renumber n)
  | .classDecl m c => append (modifiers m) (c.pieces_renumber n)
  | .importFrom _ clause specifier isTypeOnly => by
    refine append (append (append (cons (cons (keyword isTypeOnly "type"))) ?_)
      (specifier.pieces_renumber n)) (cons nil)
    cases clause with
    | none => exact nil
    | some c => exact append (append c.pieces_renumber (cons (cons (cons nil)))) nil
  | .importEquals _ isExported _ kind value => by
    refine append (append (keyword isExported "export")
      (cons (cons (cons (cons (cons (cons ?_))))))) (cons nil)
    cases kind with
    | require => exact cons (between (value.pieces_renumber n))
    | entity => exact value.pieces_renumber n
  | .exportFrom _ clause specifier isTypeOnly =>
    append (append (append (cons (cons (keyword isTypeOnly "type")))
      (exportClausePieces_renumber clause))
      (exprPieces?_renumber n _ (cons (cons (cons nil))) specifier)) (cons nil)
  | .exportValue _ form value => by
    cases form <;>
      exact append (cons (cons (cons (cons (slot (value.pieces_renumber n)))))) (cons nil)
  | .ambient _ _ => nil
  | .block body => by
    have hambient : (renumberStmts r body).all Stmt.isAmbient = body.all Stmt.isAmbient := by
      rw [renumberStmts_eq, List.all_map]
      exact congrArg body.all (funext fun s => s.isAmbient_renumber r)
    exact choice hambient (cons (cons (cons nil))) (inBraces n (stmtLines_renumber (n + 1) body))
  | .ifThen test yes =>
    append (cons (cons (between (test.pieces_renumber n)))) (cons (yes.pieces_renumber n))
  | .ifElse test yes no =>
    append (append (cons (cons (between (test.pieces_renumber n))))
      (cons (yes.pieces_renumber n))) (gap n yes (cons (cons (no.pieces_renumber n))))
  | .forLoop init test update body =>
    append (cons (cons (between (append (append (init.pieces_renumber n)
      (cons (exprPieces?_renumber n _ (cons nil) test)))
      (cons (exprPieces?_renumber n _ (cons nil) update)))))) (cons (body.pieces_renumber n))
  | .forIn head object body =>
    append (cons (cons (between (append (head.pieces_renumber n)
      (cons (cons (cons (object.pieces_renumber n)))))))) (cons (body.pieces_renumber n))
  | .forOf head iterable body isAwait =>
    append (append (cons (cons (keyword isAwait "await")))
      (between (append (head.pieces_renumber n)
        (cons (cons (cons (slot (iterable.pieces_renumber n)))))))) (cons (body.pieces_renumber n))
  | .whileLoop test body =>
    append (cons (cons (between (test.pieces_renumber n)))) (cons (body.pieces_renumber n))
  | .doWhile body test =>
    append (append (cons (cons (body.pieces_renumber n)))
      (gap n body (cons (cons (between (test.pieces_renumber n)))))) (cons nil)
  | .tryCatch body handler finalizer =>
    append (append (cons (cons (inBraces n (stmtLines_renumber (n + 1) body))))
      (catchPieces?_renumber n handler)) (finallyPieces?_renumber n finalizer)
  | .switch subject cases =>
    append (cons (cons (between (subject.pieces_renumber n))))
      (cons (inBraces n (casesPieces_renumber (n + 1) cases)))
  | .labeled _ body => cons (cons (cons (body.pieces_renumber n)))
  | .withObject object body =>
    append (cons (cons (between (object.pieces_renumber n)))) (cons (body.pieces_renumber n))
  | .ret arg => append (cons (exprPieces?_renumber n _ (cons nil) arg)) (cons nil)
  | .throw arg => append (cons (cons (arg.pieces_renumber n))) (cons nil)
  | .breakTo label => jump "break" label
  | .continueTo label => jump "continue" label
  | .empty => cons nil
  | .debugger => cons (cons nil)

end

end Trees

/-- A statement prints the same under any numbers. -/
@[simp] theorem Stmt.print_renumber (s : Stmt) : (s.renumber r).print = s.print := by
  rw [print, s.pieces_renumber 0, Piece.render_renumber, print]

end RegisterForm
