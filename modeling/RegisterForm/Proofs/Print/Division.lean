import RegisterForm.Proofs.Print.Grammar
import RegisterForm.Proofs.Print.Nesting
/-!
# Elements between commas

A reader of printed code finds the end of a part by counting brackets, and divides what is inside
at the commas that stand outside of all brackets. Nothing between two commas is a hole of an
array; a comma before the closing bracket is ignored. Every array pattern reads back with its
elements and holes, and so does every array literal on one line. With its elements on lines of
their own, a literal loses a hole at its end.
-/
namespace RegisterForm

/-! ## Reading -/

/-- How many brackets are open behind a piece. -/
def Piece.depthAfter (depth : Nat) : Piece → Nat
  | sym text =>
    if opensBracket text then depth + 1 else if closesBracket text then depth - 1 else depth
  | _ => depth

/-- What stands before a symbol, the first one outside of all brackets, and what stands behind. -/
def spanTo (stop : String) : Nat → List Piece → Option (List Piece × List Piece)
  | _, [] => none
  | depth, p :: ps =>
    if depth = 0 ∧ p = .sym stop then some ([], ps)
    else (spanTo stop (p.depthAfter depth) ps).map fun (inner, rest) => (p :: inner, rest)

/-- The parts between the commas that stand outside of all brackets. -/
def splitAtCommas : Nat → List Piece → List (List Piece)
  | _, [] => [[]]
  | depth, p :: ps =>
    if depth = 0 ∧ p = .sym "," then [] :: splitAtCommas 0 ps
    else (splitAtCommas (p.depthAfter depth) ps).modifyHead (p :: ·)

/-- The pieces that are no white space. -/
def visible (pieces : List Piece) : List Piece := pieces.filter (·.token?.isSome)

/-- An element of an array: nothing is a hole. -/
def elementOf (part : List Piece) : Option (List Piece) := if part = [] then none else some part

/-- The elements of an array, from its parts: nothing behind the last comma is no element. -/
def elementsOf (parts : List (List Piece)) : List (Option (List Piece)) :=
  (if parts.getLast? = some [] then parts.dropLast else parts).map elementOf

/-- Reads one array, literal or pattern, and nothing behind it. -/
def readArray : List Piece → Option (List (Option (List Piece)))
  | .sym "[" :: ps =>
    match spanTo "]" 0 ps with
    | some (inner, []) => some (elementsOf ((splitAtCommas 0 inner).map visible))
    | _ => none
  | _ => none

/-! ## Past what closes its brackets -/

section Skipping
variable {stop : String} {ps : List Piece} {ds : List String}

theorem ne_stop_of_plain {text : String} (hopen : opensBracket stop = false)
    (hstop : closesBracket stop = true ∨ isDivider stop = true) (hbracket : isBracket text = false)
    (hplain : isDivider text = false) : text ≠ stop := by
  rintro rfl
  simp [isBracket, hopen, hplain] at hbracket hstop
  exact absurd hstop (by simp [hbracket])

/-- A reader that takes the pieces one by one, until a symbol stands outside of all brackets,
takes all pieces that close their brackets and do not show that symbol. -/
theorem Nests.skip {α : Type} (read : Nat → List Piece → α) {take : Piece → α → α}
    (hread : ∀ depth p ps, ¬(depth = 0 ∧ p = .sym stop) →
      read depth (p :: ps) = take p (read (p.depthAfter depth) ps))
    (hopen : opensBracket stop = false)
    (hstop : closesBracket stop = true ∨ isDivider stop = true) (h : Nests ps ds) :
    ∀ depth rest, (depth = 0 → stop ∉ ds) →
      read depth (ps ++ rest) = ps.foldr take (read depth rest) := by
  induction h with
  | nil => exact fun _ _ _ => rfl
  | @consWord p ps ds hp _ ih =>
    intro depth rest hmem
    have hdepth : p.depthAfter depth = depth := by
      cases p with
      | sym text => exact absurd rfl (hp text)
      | _ => rfl
    rw [List.cons_append, hread _ _ _ fun h => hp _ h.2, hdepth, ih depth rest hmem,
      List.foldr_cons]
  | @consPlain text ps ds hbracket hplain _ ih =>
    intro depth rest hmem
    have hne := ne_stop_of_plain hopen hstop hbracket hplain
    have hdepth : (Piece.sym text).depthAfter depth = depth := by
      rw [isBracket, Bool.or_eq_false_iff] at hbracket
      simp [Piece.depthAfter, hbracket]
    rw [List.cons_append, hread _ _ _ fun h => hne (Piece.sym.inj h.2), hdepth,
      ih depth rest hmem, List.foldr_cons]
  | @consDivider text ps ds hdivider _ ih =>
    intro depth rest hmem
    have hne : ¬(depth = 0 ∧ Piece.sym text = .sym stop) := fun h =>
      hmem h.1 (Piece.sym.inj h.2 ▸ List.mem_cons_self)
    have hbracket := not_isBracket_of_isDivider hdivider
    have hdepth : (Piece.sym text).depthAfter depth = depth := by
      rw [isBracket, Bool.or_eq_false_iff] at hbracket
      simp [Piece.depthAfter, hbracket]
    rw [List.cons_append, hread _ _ _ hne, hdepth,
      ih depth rest fun h hin => hmem h (List.mem_cons_of_mem _ hin), List.foldr_cons]
  | @consEnclosed o c inner ps es ds ho hc _ _ ihInner ih =>
    intro depth rest hmem
    have hne : o ≠ stop := fun h => by simp [h, hopen] at ho
    have hfirst : (Piece.sym o).depthAfter depth = depth + 1 := by simp [Piece.depthAfter, ho]
    have hlast : (Piece.sym c).depthAfter (depth + 1) = depth := by
      simp [Piece.depthAfter, hc, not_opensBracket_of_closesBracket hc]
    have hinner := ihInner (depth + 1) (.sym c :: (ps ++ rest)) (by simp)
    rw [hread _ _ _ (by simp), hlast, ih depth rest hmem] at hinner
    have hpieces : RegisterForm.enclosed o c inner ++ ps ++ rest
        = .sym o :: (inner ++ .sym c :: (ps ++ rest)) := by
      simp [RegisterForm.enclosed]
    rw [hpieces, hread _ _ _ fun h => hne (Piece.sym.inj h.2), hfirst, hinner]
    simp [RegisterForm.enclosed]

theorem foldr_map_cons (ps : List Piece) (x : Option (List Piece × List Piece)) :
    ps.foldr (fun p => Option.map fun (inner, rest) => (p :: inner, rest)) x =
      x.map fun (inner, rest) => (ps ++ inner, rest) := by
  induction ps with
  | nil => simp
  | cons p ps ih => simp [ih, Function.comp_def]

theorem foldr_modifyHead_cons (ps : List Piece) (parts : List (List Piece)) :
    ps.foldr (fun p => List.modifyHead (p :: ·)) parts = parts.modifyHead (ps ++ ·) := by
  induction ps with
  | nil => cases parts <;> rfl
  | cons p ps ih =>
    rw [List.foldr_cons, ih]
    cases parts <;> rfl

/-- A symbol that ends a part stands behind it, and not in it outside of brackets. -/
theorem Nests.spanTo_append (h : Nests ps ds) (hmem : stop ∉ ds) (hopen : opensBracket stop = false)
    (hstop : closesBracket stop = true ∨ isDivider stop = true) (rest : List Piece) :
    spanTo stop 0 (ps ++ .sym stop :: rest) = some (ps, rest) := by
  rw [h.skip (spanTo stop) (fun _ _ _ hne => if_neg hne) hopen hstop 0 _ fun _ => hmem,
    foldr_map_cons, spanTo, if_pos ⟨rfl, rfl⟩]
  simp

theorem Nests.isDivider_of_mem (h : Nests ps ds) : ∀ d ∈ ds, isDivider d = true := by
  induction h with
  | nil => simp
  | consDivider hdivider _ ih => exact List.forall_mem_cons.mpr ⟨hdivider, ih⟩
  | consWord _ _ ih | consPlain _ _ _ ih | consEnclosed _ _ _ _ _ ih => exact ih

/-- A closing bracket ends what closes all of its own. -/
theorem Balanced.spanTo_append (h : Balanced ps) (hstop : closesBracket stop = true)
    (rest : List Piece) : spanTo stop 0 (ps ++ .sym stop :: rest) = some (ps, rest) := by
  obtain ⟨ds, hds⟩ := h
  have hmem : stop ∉ ds := by
    intro hin
    have hbracket := not_isBracket_of_isDivider (hds.isDivider_of_mem stop hin)
    rw [isBracket, hstop, Bool.or_true] at hbracket
    cases hbracket
  exact hds.spanTo_append hmem (not_opensBracket_of_closesBracket hstop) (.inl hstop) rest

theorem Nests.splitAtCommas_append (h : Nests ps ds) (hmem : "," ∉ ds) (rest : List Piece) :
    splitAtCommas 0 (ps ++ rest) = (splitAtCommas 0 rest).modifyHead (ps ++ ·) := by
  rw [h.skip splitAtCommas (fun _ _ _ hne => if_neg hne) rfl (.inr rfl) 0 rest
    fun _ => hmem, foldr_modifyHead_cons]

end Skipping

/-! ## Parts between commas -/

@[simp] theorem visible_nil : visible [] = [] := rfl

@[simp] theorem visible_append (ps qs : List Piece) : visible (ps ++ qs) = visible ps ++ visible qs :=
  List.filter_append ..

@[simp] theorem visible_space (ps : List Piece) : visible (.space :: ps) = visible ps := rfl

@[simp] theorem visible_line (level : Nat) (ps : List Piece) : visible (.line level :: ps) = visible ps :=
  rfl

/-- Pieces that close their brackets and show no comma outside of them. -/
def IsPart (ps : List Piece) : Prop := ∃ ds, Nests ps ds ∧ "," ∉ ds

namespace IsPart

variable {item ps : List Piece} {items parts : List (List Piece)}

theorem nil : IsPart [] := ⟨[], .nil, List.not_mem_nil⟩

theorem append (hp : IsPart ps) (hq : IsPart item) : IsPart (ps ++ item) := by
  obtain ⟨ds, hds, hp⟩ := hp
  obtain ⟨es, hes, hq⟩ := hq
  exact ⟨_, hds.append hes, by simp [hp, hq]⟩

theorem cons {p : Piece} (hp : Nests [p] []) (h : IsPart item) : IsPart (p :: item) :=
  append ⟨[], hp, List.not_mem_nil⟩ h

theorem balanced (h : IsPart item) : Balanced item := by
  obtain ⟨ds, hds, -⟩ := h
  exact hds.balanced

/-- Part of a part stands before the first comma behind it. -/
theorem visible_split (h : IsPart ps) (rest : List Piece) :
    (splitAtCommas 0 (ps ++ rest)).map visible =
      ((splitAtCommas 0 rest).map visible).modifyHead (visible ps ++ ·) := by
  obtain ⟨ds, hds, hmem⟩ := h
  rw [hds.splitAtCommas_append hmem]
  cases splitAtCommas 0 rest <;> simp

end IsPart

theorem splitAtCommas_comma (ps : List Piece) :
    splitAtCommas 0 (.sym "," :: ps) = [] :: splitAtCommas 0 ps := if_pos ⟨rfl, rfl⟩

section Items
variable {items : List (List Piece)} {rest : List Piece}

/-- The parts that items are read as: without items there is one, with nothing in it. -/
def partsOf : List (List Piece) → List (List Piece)
  | [] => [[]]
  | items => items.map visible

/-- Items on one line divide at the commas between them. -/
theorem split_commaSeparated (more : List (List Piece)) (h : ∀ item ∈ items, IsPart item)
    (hrest : (splitAtCommas 0 rest).map visible = [] :: more) :
    (splitAtCommas 0 (commaSeparated items ++ rest)).map visible = partsOf items ++ more := by
  fun_induction commaSeparated items with
  | case1 => exact hrest
  | case2 item =>
    rw [(h item List.mem_cons_self).visible_split, hrest]
    simp [partsOf]
  | case3 item₁ item₂ items ih =>
    obtain ⟨hfirst, hmore⟩ := List.forall_mem_cons.mp h
    have hspace : IsPart [.space] := .cons (.word (by simp)) .nil
    have hmore := (hspace.visible_split _).trans (congrArg _ (ih hmore))
    rw [List.append_assoc, hfirst.visible_split, List.cons_append, splitAtCommas_comma, List.map_cons]
    rw [List.singleton_append] at hmore
    rw [List.cons_append, hmore]
    simp [partsOf]

/-- So do items on lines of their own. -/
theorem split_commaLines (level : Nat) (more : List (List Piece)) (h : ∀ item ∈ items, IsPart item)
    (hrest : (splitAtCommas 0 rest).map visible = [] :: more) :
    (splitAtCommas 0 (commaLines level items ++ rest)).map visible = partsOf items ++ more := by
  have hline : Nests [.line level] [] := .word (by simp)
  fun_induction commaLines level items with
  | case1 => exact hrest
  | case2 item =>
    rw [(IsPart.cons hline (h item List.mem_cons_self)).visible_split, hrest]
    simp [partsOf]
  | case3 item₁ item₂ items ih =>
    obtain ⟨hfirst, hmore⟩ := List.forall_mem_cons.mp h
    have ih := ih hmore
    rw [List.append_assoc, (IsPart.cons hline hfirst).visible_split, List.cons_append,
      splitAtCommas_comma, List.map_cons, ih]
    simp [partsOf]

end Items

/-! ## Elements of arrays -/

section Elements
variable {items : List (List Piece)}

/-- A comma behind the last item is ignored. -/
theorem elementsOf_comma (h : items ≠ []) :
    elementsOf (partsOf items ++ [[]]) = items.map (elementOf ∘ visible) := by
  cases items with
  | nil => exact absurd rfl h
  | cons item items =>
    rw [partsOf, elementsOf, List.getLast?_concat, if_pos rfl, List.dropLast_concat, List.map_map]
    simp

/-- Without such a comma an item at the end is lost if it shows nothing. -/
theorem elementsOf_partsOf (items : List (List Piece)) :
    elementsOf (partsOf items ++ []) =
      (if items.getLast?.any (visible · == []) then items.dropLast else items).map
        (elementOf ∘ visible) := by
  rw [List.append_nil]
  cases items with
  | nil => rfl
  | cons item items =>
    have hlast : (partsOf (item :: items)).getLast? = some [] ↔
        (item :: items).getLast?.any (visible · == []) = true := by
      rw [partsOf, List.getLast?_map]
      cases (item :: items).getLast? <;> simp
      simp
    rw [elementsOf, if_congr hlast rfl rfl]
    split
    · rw [partsOf, ← List.map_dropLast, List.map_map]
      simp
    · rw [partsOf, List.map_map]
      simp

/-- An array is read by its parts. -/
theorem readArray_enclosed {inner : List Piece} (h : Balanced inner) :
    readArray (enclosed "[" "]" inner) =
      some (elementsOf ((splitAtCommas 0 inner).map visible)) := by
  have hspan : spanTo "]" 0 (inner ++ [.sym "]"]) = some (inner, []) := h.spanTo_append rfl []
  rw [enclosed, List.cons_append, readArray, hspan]

end Elements

/-! ## What slots show -/

section Shown
variable {p : Piece} {ps qs : List Piece}

theorem visible_ne_cons (h : p.token?.isSome = true) : visible (p :: ps) ≠ [] := by
  simp [visible, h]

theorem visible_ne_sym (text : String) : visible (.sym text :: ps) ≠ [] := visible_ne_cons rfl

theorem visible_ne_skip (h : visible ps ≠ []) : visible (p :: ps) ≠ [] := fun hnil =>
  h (List.append_eq_nil_iff.mp ((visible_append [p] ps).symm.trans hnil)).2

theorem visible_ne_left (h : visible ps ≠ []) : visible (ps ++ qs) ≠ [] := fun hnil =>
  h (List.append_eq_nil_iff.mp ((visible_append ps qs).symm.trans hnil)).1

theorem visible_ne_right (h : visible qs ≠ []) : visible (ps ++ qs) ≠ [] := fun hnil =>
  h (List.append_eq_nil_iff.mp ((visible_append ps qs).symm.trans hnil)).2

end Shown

/-- In a slot that no sequence fits without parentheses, an expression shows something. -/
theorem Expr.visible_slot_ne (n : Nat) {min : Nat} (hmin : 0 < min) (e : Expr) :
    visible (parenthesized (e.rank < min) (e.pieces n)) ≠ [] := by
  by_cases hneeded : e.rank < min
  · rw [decide_eq_true hneeded]
    exact visible_ne_sym _
  · rw [decide_eq_false hneeded, parenthesized, if_neg Bool.false_ne_true]
    cases e with
    | sequence exprs => exact absurd hmin hneeded
    | ident x => exact visible_ne_cons rfl
    | literal value =>
      cases value with
      | boolean value => cases value <;> exact visible_ne_sym _
      | _ => exact visible_ne_cons rfl
    | array elements =>
      change visible (if elements.any (·.any Expr.isFunctionLike) then _ else _) ≠ []
      split <;> exact visible_ne_sym _
    | object properties => cases properties <;> exact visible_ne_sym _
    | function f =>
      obtain ⟨name, params, body, isAsync, isGenerator⟩ := f
      exact visible_ne_left (visible_ne_left (visible_ne_left
        (visible_ne_right (visible_ne_sym _))))
    | classExpr c =>
      obtain ⟨name, base, members⟩ := c
      exact visible_ne_sym _
    | update op isBefore arg =>
      cases isBefore with
      | true => exact visible_ne_sym _
      | false => exact visible_ne_right (visible_ne_sym _)
    | arrow _ _ _ | binary _ _ _ | assign _ _ _ | conditional _ _ _ =>
      exact visible_ne_right (visible_ne_skip (visible_ne_sym _))
    | tagged _ _ _ | call _ _ _ | newCall _ _ | index _ _ _ | member _ _ _ =>
      exact visible_ne_right (visible_ne_sym _)
    | _ => exact visible_ne_sym _

theorem Pattern.visible_pieces_ne (n : Nat) (p : Pattern) : visible (p.pieces n) ≠ [] := by
  cases p with
  | expr e => exact e.visible_slot_ne n (by decide)
  | ident x => exact visible_ne_cons rfl
  | object properties rest =>
    change visible (bracedNames (patternPropertiesPieces n properties ++ restPieces n rest)) ≠ []
    cases patternPropertiesPieces n properties ++ restPieces n rest <;> exact visible_ne_sym _
  | array elements rest => exact visible_ne_sym _

/-- What the slot of a literal is read as. -/
def readSlot (n : Nat) (e : Option Expr) : Option (List Piece) :=
  e.map fun e => visible (parenthesized (e.rank < Rank.assign) (e.pieces n))

/-- What the slot of a pattern is read as. -/
def readPatternSlot (n : Nat) (e : Option PatternElement) : Option (List Piece) :=
  e.map fun e => visible (e.pieces n)

/-- What the rest element of a pattern is read as. -/
def readRest (n : Nat) (p : Pattern) : Option (List Piece) := some (visible (.sym "..." :: p.pieces n))

section Slots
variable (n : Nat)

theorem elementOf_exprPieces? (e : Option Expr) :
    elementOf (visible (exprPieces? [] n Rank.assign e)) = readSlot n e := by
  cases e with
  | none => rfl
  | some e => exact if_neg (e.visible_slot_ne n (by decide))

theorem slotsPieces_eq_map (es : List (Option Expr)) :
    slotsPieces n es = es.map (exprPieces? [] n Rank.assign) := by
  induction es with
  | nil => rfl
  | cons e es ih => rw [slotsPieces, ih, List.map_cons]

theorem exprPieces?_isPart {intro : List Piece} (hintro : Nests intro []) (e : Option Expr) :
    IsPart (exprPieces? intro n Rank.assign e) := by
  refine ⟨_, exprPieces?_nests hintro n Rank.assign e, fun hmem => ?_⟩
  exact absurd (dividers?_cases Rank.assign e hmem) (by decide)

theorem slotsPieces_areParts (es : List (Option Expr)) :
    ∀ item ∈ slotsPieces n es, IsPart item := by
  rw [slotsPieces_eq_map]
  exact List.forall_mem_map.mpr fun e _ => exprPieces?_isPart n .nil e

theorem Pattern.pieces_isPart (p : Pattern) : IsPart (p.pieces n) := by
  refine ⟨_, p.nests n, fun hmem => ?_⟩
  exact absurd (p.dividers_cases hmem) (by decide)

theorem patternSlotsPieces_eq_map (es : List (Option PatternElement)) :
    patternSlotsPieces n es = es.map (patternSlotPieces n) := by
  induction es with
  | nil => rfl
  | cons e es ih => rw [patternSlotsPieces, ih, List.map_cons]

theorem PatternElement.visible_pieces_ne (e : PatternElement) : visible (e.pieces n) ≠ [] := by
  obtain ⟨target, fallback⟩ := e
  rw [PatternElement.pieces, visible_append]
  exact List.append_ne_nil_of_left_ne_nil (target.visible_pieces_ne n) _

theorem elementOf_patternSlotPieces (e : Option PatternElement) :
    elementOf (visible (patternSlotPieces n e)) = readPatternSlot n e := by
  cases e with
  | none => rfl
  | some e => exact if_neg (e.visible_pieces_ne n)

theorem patternSlotPieces_isPart (e : Option PatternElement) : IsPart (patternSlotPieces n e) := by
  cases e with
  | none => exact .nil
  | some e =>
    obtain ⟨target, fallback⟩ := e
    exact (target.pieces_isPart n).append (exprPieces?_isPart n initial_nests fallback)

end Slots

/-! ## Layouts -/

section Layouts
variable {items : List (List Piece)}

/-- Whether an item at the end shows nothing. -/
def endsBlank (items : List (List Piece)) : Bool := items.getLast?.any (visible · == [])

/-- On one line, with a comma behind a hole at the end, every item is read. -/
theorem readArray_oneLine (h : ∀ item ∈ items, IsPart item) :
    readArray (enclosed "[" "]" (commaSeparated items ++ trailingHole (endsBlank items))) =
      some (items.map (elementOf ∘ visible)) := by
  have hbalanced : Balanced (commaSeparated items ++ trailingHole (endsBlank items)) :=
    (AllBalanced.commaSeparated fun item hitem => (h item hitem).balanced).append
      (trailingHole_balanced _)
  rw [readArray_enclosed hbalanced]
  cases hends : endsBlank items with
  | false =>
    rw [trailingHole, if_neg Bool.false_ne_true, split_commaSeparated [] h rfl,
      elementsOf_partsOf, ← endsBlank, hends, if_neg Bool.false_ne_true]
  | true =>
    have hne : items ≠ [] := by
      rintro rfl
      cases hends
    rw [trailingHole, if_pos rfl, split_commaSeparated [[]] h rfl, elementsOf_comma hne]

/-- On lines of their own, an item at the end that shows nothing is lost. -/
theorem readArray_ownLines (n : Nat) (h : ∀ item ∈ items, IsPart item) :
    readArray (enclosed "[" "]" (commaLines (n + 1) items ++ [.line n])) =
      some ((if endsBlank items then items.dropLast else items).map (elementOf ∘ visible)) := by
  have hbalanced : Balanced (commaLines (n + 1) items ++ [.line n]) :=
    (AllBalanced.commaLines (n + 1) fun item hitem => (h item hitem).balanced).append
      (.cons_line n .nil)
  rw [readArray_enclosed hbalanced, split_commaLines (n + 1) [] h rfl, elementsOf_partsOf,
    ← endsBlank]

/-- A list of slots ends with nothing if it ends with a hole. -/
theorem endsBlank_map {α : Type} {slot : Option α → List Piece} {read : α → List Piece}
    (hread : ∀ e, elementOf (visible (slot e)) = e.map read) (es : List (Option α)) :
    endsBlank (es.map slot) = endsInHole es := by
  have hblank : ∀ e, (visible (slot e) == []) = e.isNone := by
    intro e
    have he := hread e
    rw [elementOf] at he
    cases e with
    | none => simpa using he
    | some e =>
      split at he
      · cases he
      · next hne => simpa using hne
  rw [endsBlank, endsInHole, List.getLast?_map]
  cases es.getLast? with
  | none => rfl
  | some e => exact hblank e

end Layouts

/-! ## Arrays -/

/-- A literal with a function or an arrow function among its elements prints each element on a
line of its own. -/
def takesLines (elements : List (Option Expr)) : Bool := elements.any (·.any Expr.isFunctionLike)

/-- The indentation of the elements. -/
def elementLevel (n : Nat) (elements : List (Option Expr)) : Nat :=
  if takesLines elements then n + 1 else n

/-- Whether a literal prints each element on a line of its own, and its last element is a hole. -/
def losesHole (elements : List (Option Expr)) : Bool := takesLines elements && endsInHole elements

/-- What an array literal is read as. -/
theorem Expr.readArray_array (n : Nat) (elements : List (Option Expr)) :
    readArray ((Expr.array elements).pieces n) =
      some ((if losesHole elements then elements.dropLast else elements).map
        (readSlot (elementLevel n elements))) := by
  have hends : ∀ n, endsBlank (slotsPieces n elements) = endsInHole elements := fun n => by
    rw [slotsPieces_eq_map, endsBlank_map (elementOf_exprPieces? n)]
  have hread : ∀ n (es : List (Option Expr)),
      (slotsPieces n es).map (elementOf ∘ visible) = es.map (readSlot n) := fun n es => by
    rw [slotsPieces_eq_map, List.map_map]
    exact List.map_congr_left fun e _ => elementOf_exprPieces? n e
  have hlines : elements.any (·.any Expr.isFunctionLike) = takesLines elements := rfl
  change readArray (if elements.any (·.any Expr.isFunctionLike) then _ else _) = _
  rw [elementLevel, losesHole, hlines]
  cases takesLines elements with
  | true =>
    rw [if_pos rfl, if_pos rfl, readArray_ownLines n (slotsPieces_areParts _ _), hends,
      Bool.true_and]
    split
    · rw [slotsPieces_eq_map, ← List.map_dropLast, ← slotsPieces_eq_map, hread]
    · rw [hread]
  | false =>
    rw [if_neg Bool.false_ne_true, if_neg Bool.false_ne_true, ← hends n,
      readArray_oneLine (slotsPieces_areParts _ _), hread, Bool.false_and,
      if_neg Bool.false_ne_true]

/-- What an array pattern is read as. -/
theorem Pattern.readArray_array (n : Nat) (elements : List (Option PatternElement))
    (rest : Option Pattern) :
    readArray ((Pattern.array elements rest).pieces n) =
      some (elements.map (readPatternSlot n) ++ rest.toList.map (readRest n)) := by
  have hslots : ∀ item ∈ patternSlotsPieces n elements, IsPart item := by
    rw [patternSlotsPieces_eq_map]
    exact List.forall_mem_map.mpr fun e _ => patternSlotPieces_isPart n e
  have hread : (patternSlotsPieces n elements).map (elementOf ∘ visible) =
      elements.map (readPatternSlot n) := by
    rw [patternSlotsPieces_eq_map, List.map_map]
    exact List.map_congr_left fun e _ => elementOf_patternSlotPieces n e
  change readArray (enclosed "[" "]" (commaSeparated
    (patternSlotsPieces n elements ++ restPieces n rest) ++ _)) = _
  cases rest with
  | none =>
    have hends : endsBlank (patternSlotsPieces n elements) = endsInHole elements := by
      rw [patternSlotsPieces_eq_map, endsBlank_map (elementOf_patternSlotPieces n)]
    rw [restPieces, List.append_nil, Option.isNone_none, Bool.true_and, ← hends,
      readArray_oneLine hslots, hread]
    simp
  | some p =>
    have hvisible : visible (.sym "..." :: p.pieces n) ≠ [] := by simp [visible, Piece.token?]
    have hparts : ∀ item ∈ patternSlotsPieces n elements ++ [.sym "..." :: p.pieces n],
        IsPart item := by
      intro item hitem
      obtain hitem | hitem := List.mem_append.mp hitem
      · exact hslots item hitem
      · rw [List.mem_singleton.mp hitem]
        exact .cons (.sym rfl) (p.pieces_isPart n)
    have hends : endsBlank (patternSlotsPieces n elements ++ [.sym "..." :: p.pieces n]) = false := by
      simpa [endsBlank] using hvisible
    have h := readArray_oneLine hparts
    rw [hends, List.map_append, hread] at h
    rw [restPieces, Option.isNone_some, Bool.false_and, h]
    simp [elementOf, hvisible, readRest]

/-- An array pattern reads back as its elements and holes, and then its rest element. A literal
reads back as its elements; their number and the places of the holes are kept unless the last
element is a hole and there is a function or an arrow function among them. Then the last hole is
lost. -/
theorem arrays_read_back (n : Nat) :
    (∀ (elements : List (Option PatternElement)) (rest : Option Pattern),
      readArray ((Pattern.array elements rest).pieces n) =
        some (elements.map (readPatternSlot n) ++ rest.toList.map (readRest n)))
    ∧ ∀ elements : List (Option Expr), ∃ items,
      readArray ((Expr.array elements).pieces n) = some items
      ∧ items = (if losesHole elements then elements.dropLast else elements).map
          (readSlot (elementLevel n elements))
      ∧ (items.map Option.isSome = elements.map Option.isSome ↔ losesHole elements = false) := by
  refine ⟨Pattern.readArray_array n, fun elements => ⟨_, Expr.readArray_array n elements, rfl, ?_⟩⟩
  have hshape : ∀ es : List (Option Expr),
      (es.map (readSlot (elementLevel n elements))).map Option.isSome = es.map Option.isSome := by
    intro es
    rw [List.map_map]
    exact List.map_congr_left fun e _ => by simp [readSlot]
  rw [hshape]
  cases hloses : losesHole elements with
  | false => simp
  | true =>
    have hne : elements ≠ [] := by
      rintro rfl
      cases hloses
    have hlength : elements.length ≠ elements.length - 1 := by
      have := List.length_pos_iff.mpr hne
      omega
    refine ⟨fun h => absurd ?_ hlength, by simp⟩
    simpa using (congrArg List.length h).symm

/-- A function and a hole print as a function alone. -/
theorem hole_behind_function_lost :
    let elements : List (Option Expr) := [some (.function ⟨none, [], [], false, false⟩), none]
    (Expr.array elements).print = "[\n    function () \x7b\n    \x7d,\n    \n]"
      ∧ (readArray ((Expr.array elements).pieces 0)).map List.length = some 1 := by
  decide +kernel

end RegisterForm
