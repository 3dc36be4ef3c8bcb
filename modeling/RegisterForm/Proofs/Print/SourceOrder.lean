import RegisterForm.Print.Tree
import RegisterForm.Proofs.Tree.Idents
/-!
# Printed identifiers

A printed tree shows its identifiers in the order of its parts, so a walk meets them as they are
printed, but for trailing tests.
-/
namespace RegisterForm

/-! ## Trees that print all of their identifiers -/

/-- A function in method form prints its key and no name; a constructor prints no key. -/
def isWrittenMethod (key : Key) (kind : MethodKind) (f : Func) : Bool :=
  f.name.isNone && (kind != .constructor || key.text?.isSome)

def Property.isWritten : Property → Bool
  | .method key kind f => isWrittenMethod key kind f
  | _ => true

def ClassMember.isWritten : ClassMember → Bool
  | .method key kind _ f => isWrittenMethod key kind f
  | _ => true

/-- Whether a node has a printed form that shows all of its parts. -/
def Visit.isWritten : Visit → Bool
  | .stmt s => !s.isAmbient
  | .expr (.template chunks parts) | .expr (.tagged _ chunks parts) =>
    chunks.length == parts.length + 1
  | .expr (.object properties) => properties.all Property.isWritten
  | .classNode c => c.members.all ClassMember.isWritten
  | _ => true

def AllWritten (vs : List Visit) : Prop := ∀ v ∈ vs, v.isWritten = true

instance (vs : List Visit) : Decidable (AllWritten vs) :=
  inferInstanceAs (Decidable (∀ v ∈ vs, v.isWritten = true))

namespace AllWritten
variable {v : Visit} {vs ws : List Visit}

theorem head (h : AllWritten (v :: vs)) : v.isWritten = true := h v List.mem_cons_self

theorem tail (h : AllWritten (v :: vs)) : AllWritten vs := fun w hw => h w (List.mem_cons_of_mem v hw)

theorem left (h : AllWritten (vs ++ ws)) : AllWritten vs := fun v hv => h v (List.mem_append_left ws hv)

theorem right (h : AllWritten (vs ++ ws)) : AllWritten ws :=
  fun v hv => h v (List.mem_append_right vs hv)

theorem template {chunks : List String} {parts : List Expr}
    (h : AllWritten (.expr (.template chunks parts) :: vs)) : chunks.length = parts.length + 1 :=
  beq_iff_eq.mp h.head

theorem tagged {tag : Expr} {chunks : List String} {parts : List Expr}
    (h : AllWritten (.expr (.tagged tag chunks parts) :: vs)) : chunks.length = parts.length + 1 :=
  beq_iff_eq.mp h.head

theorem isAmbient {s : Stmt} (h : AllWritten s.visits) : s.isAmbient = false := by
  have hs : .stmt s ∈ s.visits := by cases s <;> exact List.mem_cons_self
  exact Bool.not_eq_true' _ ▸ h _ hs

end AllWritten

/-! ## Identifiers of pieces -/

/-- The identifiers that some pieces show, in order. -/
def printedIdents (ps : List Piece) : List Ident := ps.filterMap Piece.ident?

/-- The pieces show the identifiers, in order. -/
def ShowsIdents (ps : List Piece) (xs : List Ident) : Prop := printedIdents ps = xs

/-- The items show the identifiers, one after another. -/
def ItemsShow (items : List (List Piece)) (xs : List Ident) : Prop :=
  items.flatMap printedIdents = xs

namespace ShowsIdents
variable {p : Piece} {ps qs : List Piece} {xs ys : List Ident} {items : List (List Piece)}

theorem nil : ShowsIdents [] [] := rfl

theorem ident (x : Ident) (h : ShowsIdents ps xs) : ShowsIdents (.ident x :: ps) (x :: xs) :=
  congrArg (x :: ·) h

theorem skip (hp : p.ident? = none) (h : ShowsIdents ps xs) : ShowsIdents (p :: ps) xs :=
  (List.filterMap_cons_none hp).trans h

theorem append (h : ShowsIdents ps xs) (h' : ShowsIdents qs ys) :
    ShowsIdents (ps ++ qs) (xs ++ ys) := by
  rw [ShowsIdents, printedIdents, List.filterMap_append]
  exact congr (congrArg List.append h) h'

theorem after (h : ShowsIdents ps []) (h' : ShowsIdents qs xs) : ShowsIdents (ps ++ qs) xs :=
  h.append h'

theorem before (h : ShowsIdents ps xs) (h' : ShowsIdents qs []) : ShowsIdents (ps ++ qs) xs :=
  List.append_nil xs ▸ h.append h'

theorem ite {c : Prop} [Decidable c] (h : ShowsIdents ps xs) (h' : ShowsIdents qs xs) :
    ShowsIdents (if c then ps else qs) xs := by
  split
  · exact h
  · exact h'

theorem ofIdent? (x : Option Ident) : ShowsIdents (identPieces? x) x.toList := by
  cases x <;> rfl

theorem between (opening closing : String) (h : ShowsIdents ps xs) :
    ShowsIdents (enclosed opening closing ps) xs := (h.skip rfl).before (nil.skip rfl)

theorem guarded (needed : Bool) (h : ShowsIdents ps xs) : ShowsIdents (parenthesized needed ps) xs :=
  ite (h.between "(" ")") h

theorem keyword (wanted : Bool) (text : String) : ShowsIdents (spacedIf wanted text) [] := by
  cases wanted <;> rfl

theorem modifiers (m : Modifiers) : ShowsIdents m.pieces [] := (keyword _ _).append (keyword _ _)

theorem methodKind (kind : MethodKind) : ShowsIdents kind.pieces [] := by cases kind <;> rfl

theorem jump (word : String) (label : Option String) : ShowsIdents (jumpPieces word label) [] := by
  cases label <;> rfl

theorem hole (wanted : Bool) : ShowsIdents (trailingHole wanted) [] := by cases wanted <;> rfl

theorem gap (n : Nat) (s : Stmt) (h : ShowsIdents ps xs) : ShowsIdents (gapAfter n s :: ps) xs := by
  unfold gapAfter
  split <;> exact h.skip rfl

theorem literal (value : Literal) : ShowsIdents [value.piece] [] := by
  cases value with
  | boolean b => cases b <;> rfl
  | _ => rfl

theorem items_nil : ItemsShow [] [] := rfl

theorem items_cons (h : ShowsIdents ps xs) (hitems : ItemsShow items ys) :
    ItemsShow (ps :: items) (xs ++ ys) := by
  rw [ItemsShow, List.flatMap_cons, h, hitems]

theorem items_append {more : List (List Piece)} (h : ItemsShow items xs)
    (h' : ItemsShow more ys) : ItemsShow (items ++ more) (xs ++ ys) := by
  rw [ItemsShow, List.flatMap_append, h, h']

theorem items_map {α : Type} {pieces : α → List Piece} {ident : α → Ident}
    (h : ∀ a, ShowsIdents (pieces a) [ident a]) :
    (as : List α) → ItemsShow (as.map pieces) (as.map ident)
  | [] => items_nil
  | a :: as => items_cons (h a) (items_map h as)

private theorem own (ps : List Piece) : ShowsIdents ps (printedIdents ps) := rfl

theorem commas : {items : List (List Piece)} → {xs : List Ident} → ItemsShow items xs →
    ShowsIdents (commaSeparated items) xs
  | [], _, h => h ▸ nil
  | [item], _, h => h ▸ (own item).trans (List.append_nil _).symm
  | item₁ :: item₂ :: items, _, h =>
    h ▸ (own item₁).append (((commas rfl : ShowsIdents (commaSeparated (item₂ :: items)) _).skip
      rfl).skip rfl)

theorem lines (n : Nat) : {items : List (List Piece)} → {xs : List Ident} → ItemsShow items xs →
    ShowsIdents (commaLines n items) xs
  | [], _, h => h ▸ nil
  | [item], _, h => h ▸ ((own item).skip rfl).trans (List.append_nil _).symm
  | item₁ :: item₂ :: items, _, h =>
    h ▸ ((own item₁).skip rfl).append
      ((lines n rfl : ShowsIdents (commaLines n (item₂ :: items)) _).skip rfl)

theorem flatMap_line (n : Nat) (h : ItemsShow items xs) :
    ShowsIdents (items.flatMap (.line n :: ·)) xs := by
  rw [ShowsIdents, printedIdents, List.filterMap_flatMap]
  exact h

theorem inBraces (n : Nat) (h : ItemsShow items xs) : ShowsIdents (braced n items) xs :=
  ((flatMap_line (n + 1) h).skip rfl).before ((nil.skip rfl).skip rfl)

theorem nameList (h : ItemsShow items xs) : ShowsIdents (bracedNames items) xs := by
  have hitems := commas h
  cases items with
  | nil => exact h ▸ (nil.skip rfl).skip rfl
  | cons item items => exact ((hitems.skip rfl).skip rfl).before ((nil.skip rfl).skip rfl)

/-- A template shows all of its expressions where it has one piece of text more. -/
theorem inTemplate : {chunks : List String} → {parts : List (List Piece)} → {xs : List Ident} →
    chunks.length = parts.length + 1 → ItemsShow parts xs →
    ShowsIdents (templatePieces chunks parts) xs
  | [_], [], _, _, h => h ▸ nil.skip rfl
  | _ :: chunk :: chunks, part :: parts, _, hlength, h => by
    have hrest : ShowsIdents (templatePieces (chunk :: chunks) parts) (parts.flatMap printedIdents) :=
      inTemplate (Nat.succ.inj hlength) rfl
    exact h ▸ (((own part).between _ _).skip rfl).append hrest

end ShowsIdents

open ShowsIdents

/-! ## Clauses -/

theorem ImportBindings.shows (b : ImportBindings) : ShowsIdents b.pieces b.idents := by
  cases b with
  | star x => rfl
  | named specifiers =>
    refine nameList (items_map (fun s => ?_) specifiers)
    refine after (after (keyword _ _) ?_) (nil.ident s.binding)
    cases s.imported <;> rfl

theorem ImportClause.shows (c : ImportClause) : ShowsIdents c.pieces c.idents := by
  obtain ⟨default, bindings⟩ := c
  have hdefault : ItemsShow (default.toList.map fun x => [.ident x]) default.toList := by
    cases default <;> rfl
  refine commas (items_append hdefault ?_)
  cases bindings with
  | none => exact items_nil
  | some b => exact items_cons b.shows items_nil

theorem shows_exportClause (c : Option ExportClause) :
    ShowsIdents (exportClausePieces c) (c.toList.flatMap (·.idents)) := by
  cases c with
  | none => rfl
  | some c =>
    rw [Option.toList_some, List.flatMap_singleton]
    cases c with
    | star x => rfl
    | named specifiers =>
      refine nameList (items_map (fun s => ?_) specifiers)
      refine after (keyword _ _) (ident s.source ?_)
      cases s.exported <;> rfl

/-! ## Trees -/

theorem Key.idents_of_text? {key : Key} (h : key.text?.isSome = true) : key.idents = [] := by
  cases key with
  | computed e => exact nomatch h
  | _ => rfl

theorem length_exprsPieces (n : Nat) (min : Rank) (es : List Expr) :
    (exprsPieces n min es).length = es.length := by
  induction es with
  | nil => rfl
  | cons e es ih => exact congrArg (· + 1) ih

/-- A block of which nothing is printed has no statements. -/
theorem AllWritten.eq_nil {body : List Stmt} (h : AllWritten (stmtsVisits body))
    (hambient : body.all Stmt.isAmbient = true) : body = [] := by
  cases body with
  | nil => rfl
  | cons s body =>
    have hs := h.left.isAmbient
    rw [List.all_cons, hs, Bool.false_and] at hambient
    exact nomatch hambient

mutual

theorem Expr.shows (n : Nat) :
    (e : Expr) → AllWritten e.visits → ShowsIdents (e.pieces n) e.idents
  | .ident x, _ => nil.ident x
  | .literal value, _ => literal value
  | .template chunks parts, h =>
    between _ _ (inTemplate ((length_exprsPieces n _ parts).symm ▸ h.template)
      (shows_exprs n _ parts h.tail))
  | .tagged tag chunks parts, h =>
    append (guarded _ (tag.shows n h.tail.left))
      (between _ _ (inTemplate ((length_exprsPieces n _ parts).symm ▸ h.tagged)
        (shows_exprs n _ parts h.tail.right)))
  | .this, _ | .super, _ => nil.skip rfl
  | .array elements, h =>
    ite (between _ _ ((lines _ (shows_slots _ elements h.tail)).before (nil.skip rfl)))
      (between _ _ ((commas (shows_slots n elements h.tail)).before (hole _)))
  | .object [], _ => (nil.skip rfl).skip rfl
  | .object (p :: ps), h => by
    obtain ⟨hp, hps⟩ := Bool.and_eq_true_iff.mp (List.all_cons.symm.trans h.head)
    exact between _ _ ((lines _ (items_cons (p.shows _ hp h.tail.left)
      (shows_properties _ ps hps h.tail.right))).before (nil.skip rfl))
  | .function f, h => f.shows n h.tail
  | .arrow params body isAsync, h =>
    append (after (keyword isAsync "async")
      (between _ _ (commas (shows_params n params h.tail.left))))
      ((((body.shows n h.tail.right).skip rfl).skip rfl).skip rfl)
  | .classExpr c, h => c.shows n h.tail
  | .unary op arg, h =>
    after (skip rfl (ite (nil.skip rfl) nil)) (guarded _ (arg.shows n h.tail))
  | .update op true arg, h => (guarded _ (arg.shows n h.tail)).skip rfl
  | .update op false arg, h => (guarded _ (arg.shows n h.tail)).before (nil.skip rfl)
  | .binary op left right, h => by
    have hleft := left.shows n h.tail.left
    have hright := right.shows n h.tail.right
    rw [Expr.pieces_binary]
    exact append (guarded _ hleft) ((((guarded _ hright).skip rfl).skip rfl).skip rfl)
  | .assign op target value, h =>
    append (target.shows n h.tail.left)
      ((((guarded _ (value.shows n h.tail.right)).skip rfl).skip rfl).skip rfl)
  | .conditional test yes no, h =>
    append (append (guarded _ (test.shows n h.tail.left.left))
      ((((guarded _ (yes.shows n h.tail.left.right)).skip rfl).skip rfl).skip rfl))
      ((((guarded _ (no.shows n h.tail.right)).skip rfl).skip rfl).skip rfl)
  | .call callee args isOptional, h =>
    append ((guarded _ (callee.shows n h.tail.left)).before (ite (nil.skip rfl) nil))
      (between _ _ (commas (shows_exprs n _ args h.tail.right)))
  | .newBare callee, h => ((guarded _ (callee.shows n h.tail)).skip rfl).skip rfl
  | .newCall callee args, h =>
    append (((guarded _ (callee.shows n h.tail.left)).skip rfl).skip rfl)
      (between _ _ (commas (shows_exprs n _ args h.tail.right)))
  | .member owner _ _, h =>
    (guarded _ (owner.shows n h.tail.left)).before ((nil.skip rfl).skip rfl)
  | .index owner key _, h =>
    append ((guarded _ (owner.shows n h.tail.left)).before (ite (nil.skip rfl) nil))
      (between _ _ (key.shows n h.tail.right))
  | .sequence exprs, h => commas (shows_exprs n _ exprs h.tail)
  | .paren inner, h => between _ _ (inner.shows n h.tail)
  | .yield arg _, h => (shows_expr? n _ (nil.skip rfl) arg h.tail).skip rfl
  | .await arg, h => ((guarded _ (arg.shows n h.tail)).skip rfl).skip rfl
  | .spread arg, h => (guarded _ (arg.shows n h.tail)).skip rfl
  | .importCall specifier, h => (between _ _ (guarded _ (specifier.shows n h.tail))).skip rfl
  | .importMeta, _ => ((nil.skip rfl).skip rfl).skip rfl

theorem shows_exprs (n : Nat) (min : Rank) : (es : List Expr) → AllWritten (exprsVisits es) →
    ItemsShow (exprsPieces n min es) (exprsIdents es)
  | [], _ => items_nil
  | e :: es, h => items_cons (guarded _ (e.shows n h.left)) (shows_exprs n min es h.right)

theorem shows_expr? (n : Nat) (min : Rank) {intro : List Piece} (hintro : ShowsIdents intro []) :
    (e : Option Expr) → AllWritten (exprVisits? e) →
    ShowsIdents (exprPieces? intro n min e) (exprIdents? e)
  | none, _ => nil
  | some e, h => hintro.append (guarded _ (e.shows n h))

theorem shows_slots (n : Nat) : (es : List (Option Expr)) → AllWritten (slotsVisits es) →
    ItemsShow (slotsPieces n es) (exprSlotsIdents es)
  | [], _ => items_nil
  | e :: es, h => items_cons (shows_expr? n _ nil e h.left) (shows_slots n es h.right)

theorem Key.shows (n : Nat) :
    (key : Key) → AllWritten key.visits → ShowsIdents (key.pieces n) key.idents
  | .name _, _ | .string _, _ | .number _, _ => nil.skip rfl
  | .computed e, h => between _ _ (guarded _ (e.shows n h))

theorem Property.shows (n : Nat) : (p : Property) → p.isWritten = true → AllWritten p.visits →
    ShowsIdents (p.pieces n) p.idents
  | .keyed key value, _, h =>
    append (key.shows n h.left) (((guarded _ (value.shows n h.right)).skip rfl).skip rfl)
  | .shorthand x, _, _ => nil.ident x
  | .method key _ f, hp, h => f.shows_method n hp (key.shows n h.left) h.right
  | .spread e, _, h => (guarded _ (e.shows n h)).skip rfl

theorem shows_properties (n : Nat) : (ps : List Property) → ps.all Property.isWritten = true →
    AllWritten (propertiesVisits ps) → ItemsShow (propertiesPieces n ps) (propertiesIdents ps)
  | [], _, _ => items_nil
  | p :: ps, hps, h =>
    have hparts := Bool.and_eq_true_iff.mp hps
    items_cons (p.shows n hparts.1 h.left) (shows_properties n ps hparts.2 h.right)

theorem Pattern.shows (n : Nat) :
    (p : Pattern) → AllWritten p.visits → ShowsIdents (p.pieces n) p.idents
  | .ident x, _ => nil.ident x
  | .expr e, h => guarded _ (e.shows n h.tail)
  | .object properties rest, h =>
    nameList (items_append (shows_patternProperties n properties h.tail.left)
      (shows_rest n rest h.tail.right))
  | .array elements rest, h =>
    between _ _ (before (commas (items_append (shows_patternSlots n elements h.tail.left)
      (shows_rest n rest h.tail.right))) (hole _))

theorem shows_rest (n : Nat) : (p : Option Pattern) → AllWritten (patternVisits? p) →
    ItemsShow (restPieces n p) (patternIdents? p)
  | none, _ => items_nil
  | some p, h => (items_cons ((p.shows n h).skip rfl) items_nil).trans (List.append_nil _)

theorem PatternProperty.shows (n : Nat) :
    (p : PatternProperty) → AllWritten p.visits → ShowsIdents (p.pieces n) p.idents
  | .keyed key target fallback, h =>
    append (append (key.shows n h.left.left) (((target.shows n h.left.right).skip rfl).skip rfl))
      (shows_expr? n _ (((nil.skip rfl).skip rfl).skip rfl) fallback h.right)
  | .shorthand x fallback, h =>
    ident x (shows_expr? n _ (((nil.skip rfl).skip rfl).skip rfl) fallback h.tail)

theorem shows_patternProperties (n : Nat) : (ps : List PatternProperty) →
    AllWritten (patternPropertiesVisits ps) →
    ItemsShow (patternPropertiesPieces n ps) (patternPropertiesIdents ps)
  | [], _ => items_nil
  | p :: ps, h => items_cons (p.shows n h.left) (shows_patternProperties n ps h.right)

theorem PatternElement.shows (n : Nat) :
    (e : PatternElement) → AllWritten e.visits → ShowsIdents (e.pieces n) e.idents
  | ⟨target, fallback⟩, h =>
    append (target.shows n h.left)
      (shows_expr? n _ (((nil.skip rfl).skip rfl).skip rfl) fallback h.right)

theorem shows_patternSlot (n : Nat) : (e : Option PatternElement) →
    AllWritten (patternSlotVisits e) → ShowsIdents (patternSlotPieces n e) (patternSlotIdents e)
  | none, _ => nil
  | some e, h => e.shows n h

theorem shows_patternSlots (n : Nat) : (es : List (Option PatternElement)) →
    AllWritten (patternSlotsVisits es) → ItemsShow (patternSlotsPieces n es) (patternSlotsIdents es)
  | [], _ => items_nil
  | e :: es, h => items_cons (shows_patternSlot n e h.left) (shows_patternSlots n es h.right)

theorem Param.shows (n : Nat) :
    (p : Param) → AllWritten p.visits → ShowsIdents (p.pieces n) p.idents
  | ⟨pattern, fallback, _⟩, h =>
    append (after (ite (nil.skip rfl) nil) (pattern.shows n h.left))
      (shows_expr? n _ (((nil.skip rfl).skip rfl).skip rfl) fallback h.right)

theorem shows_params (n : Nat) : (ps : List Param) → AllWritten (paramsVisits ps) →
    ItemsShow (paramsPieces n ps) (paramsIdents ps)
  | [], _ => items_nil
  | p :: ps, h => items_cons (p.shows n h.left) (shows_params n ps h.right)

theorem Func.shows (n : Nat) : (f : Func) → AllWritten f.visits → ShowsIdents (f.pieces n) f.idents
  | ⟨name, params, body, isAsync, _⟩, h =>
    append (append (after (after (keyword isAsync "async") (skip rfl (ite (nil.skip rfl) nil)))
      (skip rfl (ofIdent? name))) (between _ _ (commas (shows_params n params h.tail.left.right))))
      (skip rfl (inBraces n (shows_stmts (n + 1) body h.tail.right)))

theorem Func.shows_method (n : Nat) {kind : MethodKind} {key : Key} :
    (f : Func) → isWrittenMethod key kind f = true → ShowsIdents (key.pieces n) key.idents →
    AllWritten f.visits → ShowsIdents (f.methodPieces n kind (key.pieces n)) (key.idents ++ f.idents)
  | ⟨name, params, body, isAsync, _⟩, hmethod, hkey, h => by
    obtain ⟨hname, hkind⟩ := Bool.and_eq_true_iff.mp hmethod
    have hname : name = none := Option.isNone_iff_eq_none.mp hname
    have hparams := shows_params n params h.tail.left.right
    have hbody := shows_stmts (n + 1) body h.tail.right
    subst hname
    have hshown : ShowsIdents
        (if kind == .constructor then [.name "constructor"] else key.pieces n) key.idents := by
      split
      · next hconstructor =>
        have htext : key.text?.isSome = true := by
          simpa [bne, hconstructor] using hkind
        exact Key.idents_of_text? htext ▸ nil.skip rfl
      · exact hkey
    refine Eq.trans ?_ (List.append_assoc key.idents (paramsIdents params) (stmtsIdents body))
    exact append (append (after (after (after (methodKind kind) (keyword isAsync "async"))
      (ite (nil.skip rfl) nil)) hshown) (between _ _ (commas hparams))) (skip rfl (inBraces n hbody))

theorem ArrowBody.shows (n : Nat) :
    (b : ArrowBody) → AllWritten b.visits → ShowsIdents (b.pieces n) b.idents
  | .block body, h => inBraces n (shows_stmts (n + 1) body h)
  | .expr e, h => guarded _ (e.shows n h)

theorem Class.shows (n : Nat) :
    (c : Class) → AllWritten c.visits → ShowsIdents (c.pieces n) c.idents
  | ⟨name, base, members⟩, h =>
    append (append (skip rfl (by cases name <;> rfl))
      (shows_expr? n _ (((nil.skip rfl).skip rfl).skip rfl) base h.tail.left.right))
      (skip rfl (inBraces n (shows_members (n + 1) members h.head h.tail.right)))

theorem ClassMember.shows (n : Nat) :
    (m : ClassMember) → m.isWritten = true → AllWritten m.visits → ShowsIdents (m.pieces n) m.idents
  | .method key _ isStatic f, hm, h =>
    after (keyword isStatic "static") (f.shows_method n hm (key.shows n h.left) h.right)
  | .field key isStatic value, _, h =>
    before (append (after (keyword isStatic "static") (key.shows n h.left))
      (shows_expr? n _ (((nil.skip rfl).skip rfl).skip rfl) value h.right)) (nil.skip rfl)
  | .staticBlock body, _, h => skip rfl (skip rfl (inBraces n (shows_stmts (n + 1) body h)))

theorem shows_members (n : Nat) : (ms : List ClassMember) → ms.all ClassMember.isWritten = true →
    AllWritten (membersVisits ms) → ItemsShow (membersPieces n ms) (membersIdents ms)
  | [], _, _ => items_nil
  | m :: ms, hms, h =>
    have hparts := Bool.and_eq_true_iff.mp hms
    items_cons (m.shows n hparts.1 h.left) (shows_members n ms hparts.2 h.right)

theorem Declarator.shows (n : Nat) :
    (d : Declarator) → AllWritten d.visits → ShowsIdents (d.pieces n) d.idents
  | ⟨target, init⟩, h =>
    append (target.shows n h.left)
      (shows_expr? n _ (((nil.skip rfl).skip rfl).skip rfl) init h.right)

theorem shows_declarators (n : Nat) : (ds : List Declarator) → AllWritten (declaratorsVisits ds) →
    ItemsShow (declaratorsPieces n ds) (declaratorsIdents ds)
  | [], _ => items_nil
  | d :: ds, h => items_cons (d.shows n h.left) (shows_declarators n ds h.right)

theorem VarList.shows (n : Nat) :
    (list : VarList) → AllWritten list.visits → ShowsIdents (list.pieces n) list.idents
  | ⟨_, declarators⟩, h => skip rfl (skip rfl (commas (shows_declarators n declarators h)))

theorem ForInit.shows (n : Nat) :
    (init : ForInit) → AllWritten init.visits → ShowsIdents (init.pieces n) init.idents
  | .absent, _ => nil
  | .var list, h => list.shows n h
  | .expr e, h => e.shows n h

theorem ForHead.shows (n : Nat) :
    (head : ForHead) → AllWritten head.visits → ShowsIdents (head.pieces n) head.idents
  | .var list, h => list.shows n h
  | .pattern p, h => p.shows n h

theorem Catch.shows (n : Nat) :
    (c : Catch) → AllWritten c.visits → ShowsIdents (c.pieces n) c.idents
  | ⟨none, body⟩, h => skip rfl (skip rfl (inBraces n (shows_stmts (n + 1) body h)))
  | ⟨some param, body⟩, h =>
    append (skip rfl (skip rfl (between _ _ (param.shows n h.left))))
      (skip rfl (inBraces n (shows_stmts (n + 1) body h.right)))

theorem shows_catch? (n : Nat) : (c : Option Catch) → AllWritten (catchVisits? c) →
    ShowsIdents (catchPieces? n c) (catchIdents? c)
  | none, _ => nil
  | some c, h => (c.shows n h).skip rfl

theorem shows_finally? (n : Nat) : (body : Option (List Stmt)) → AllWritten (blockVisits? body) →
    ShowsIdents (finallyPieces? n body) (blockIdents? body)
  | none, _ => nil
  | some body, h => skip rfl (skip rfl (skip rfl (inBraces n (shows_stmts (n + 1) body h))))

theorem Case.shows (n : Nat) :
    (c : Case) → AllWritten c.visits → ShowsIdents (c.pieces n) c.idents
  | ⟨none, body⟩, h => skip rfl (skip rfl (flatMap_line (n + 1) (shows_stmts (n + 1) body h)))
  | ⟨some test, body⟩, h =>
    append (skip rfl (skip rfl (test.shows n h.left)))
      (skip rfl (flatMap_line (n + 1) (shows_stmts (n + 1) body h.right)))

theorem shows_cases (n : Nat) : (cs : List Case) → AllWritten (casesVisits cs) →
    ItemsShow (casesPieces n cs) (casesIdents cs)
  | [], _ => items_nil
  | c :: cs, h => items_cons (c.shows n h.left) (shows_cases n cs h.right)

theorem shows_stmts (n : Nat) : (ss : List Stmt) → AllWritten (stmtsVisits ss) →
    ItemsShow (stmtLines n ss) (stmtsIdents ss)
  | [], _ => items_nil
  | s :: ss, h => by
    have hline := s.shows n h.left
    have hlines := shows_stmts n ss h.right
    rw [stmtLines, h.left.isAmbient]
    exact items_cons hline hlines

theorem Stmt.shows (n : Nat) : (s : Stmt) → AllWritten s.visits → ShowsIdents (s.pieces n) s.idents
  | .expr e, h => before (guarded _ (e.shows n h.tail)) (nil.skip rfl)
  | .var m list, h => before (after (modifiers m) (list.shows n h.tail)) (nil.skip rfl)
  | .function m f, h => after (modifiers m) (f.shows n h.tail)
  | .classDecl m c, h => after (modifiers m) (c.shows n h.tail)
  | .importFrom _ clause specifier isTypeOnly, h => by
    refine before (append (after (skip rfl (skip rfl (keyword isTypeOnly "type"))) ?_)
      (specifier.shows n h.tail.right)) (nil.skip rfl)
    cases clause with
    | none => exact nil
    | some c => exact append (before c.shows rfl) nil
  | .importEquals _ isExported name kind value, h => by
    have hvalue := value.shows n h.tail.tail
    refine before (after (keyword isExported "export")
      (skip rfl (skip rfl (ident name (skip rfl (skip rfl (skip rfl ?_))))))) (nil.skip rfl)
    cases kind with
    | require => exact skip rfl (between _ _ hvalue)
    | entity => exact hvalue
  | .exportFrom _ clause specifier isTypeOnly, h =>
    before (append (after (skip rfl (skip rfl (keyword isTypeOnly "type")))
      (shows_exportClause clause))
      (shows_expr? n _ (((nil.skip rfl).skip rfl).skip rfl) specifier h.tail.right)) (nil.skip rfl)
  | .exportValue _ form value, h => by
    have hvalue := value.shows n h.tail
    cases form <;>
      exact before (skip rfl (skip rfl (skip rfl (skip rfl (guarded _ hvalue))))) (nil.skip rfl)
  | .ambient _ _, h => nomatch h.head
  | .block body, h => by
    have hbody := shows_stmts (n + 1) body h.tail
    change ShowsIdents (if body.all Stmt.isAmbient then _ else _) (stmtsIdents body)
    split
    · next hambient =>
      have hnil : body = [] := h.tail.eq_nil hambient
      exact hnil ▸ ((nil.skip rfl).skip rfl).skip rfl
    · exact inBraces n hbody
  | .ifThen test yes, h =>
    append (skip rfl (skip rfl (between _ _ (test.shows n h.tail.left))))
      (skip rfl (yes.shows n h.tail.right))
  | .ifElse test yes no, h =>
    append (append (skip rfl (skip rfl (between _ _ (test.shows n h.tail.left.left))))
      (skip rfl (yes.shows n h.tail.left.right)))
      (gap n yes (skip rfl (skip rfl (no.shows n h.tail.right))))
  | .forLoop init test update body, h =>
    append (skip rfl (skip rfl (between _ _ (append (append
      (init.shows n h.tail.left.left.left)
      (skip rfl (shows_expr? n _ (nil.skip rfl) test h.tail.left.left.right)))
      (skip rfl (shows_expr? n _ (nil.skip rfl) update h.tail.left.right))))))
      (skip rfl (body.shows n h.tail.right))
  | .forIn head object body, h =>
    append (skip rfl (skip rfl (between _ _ (append (head.shows n h.tail.left.left)
      (skip rfl (skip rfl (skip rfl (object.shows n h.tail.left.right))))))))
      (skip rfl (body.shows n h.tail.right))
  | .forOf head iterable body isAwait, h =>
    append (after (skip rfl (skip rfl (keyword isAwait "await")))
      (between _ _ (append (head.shows n h.tail.left.left)
        (skip rfl (skip rfl (skip rfl (guarded _ (iterable.shows n h.tail.left.right))))))))
      (skip rfl (body.shows n h.tail.right))
  | .whileLoop test body, h =>
    append (skip rfl (skip rfl (between _ _ (test.shows n h.tail.left))))
      (skip rfl (body.shows n h.tail.right))
  | .doWhile body test, h =>
    before (append (skip rfl (skip rfl (body.shows n h.tail.right)))
      (gap n body (skip rfl (skip rfl (between _ _ (test.shows n h.tail.left)))))) (nil.skip rfl)
  | .tryCatch body handler finalizer, h =>
    append (append (skip rfl (skip rfl (inBraces n (shows_stmts (n + 1) body h.tail.left.left))))
      (shows_catch? n handler h.tail.left.right)) (shows_finally? n finalizer h.tail.right)
  | .switch subject cases, h =>
    append (skip rfl (skip rfl (between _ _ (subject.shows n h.tail.left))))
      (skip rfl (inBraces n (shows_cases (n + 1) cases h.tail.right)))
  | .labeled _ body, h => skip rfl (skip rfl (skip rfl (body.shows n h.tail.tail)))
  | .withObject object body, h =>
    append (skip rfl (skip rfl (between _ _ (object.shows n h.tail.left))))
      (skip rfl (body.shows n h.tail.right))
  | .ret arg, h => before (skip rfl (shows_expr? n _ (nil.skip rfl) arg h.tail)) (nil.skip rfl)
  | .throw arg, h => before (skip rfl (skip rfl (arg.shows n h.tail))) (nil.skip rfl)
  | .breakTo label, _ => jump _ label
  | .continueTo label, _ => jump _ label
  | .empty, _ => nil.skip rfl
  | .debugger, _ => (nil.skip rfl).skip rfl

end

/-! ## Walks and printed trees -/

/-- A tree that a walk starts from. -/
inductive Tree where
  | stmt (s : Stmt)
  | expr (e : Expr)
  | pattern (p : Pattern)
  | func (f : Func)
  | classNode (c : Class)

namespace Tree

def visits : Tree → List Visit
  | stmt s => s.visits
  | expr e => e.visits
  | pattern p => p.visits
  | func f => f.visits
  | classNode c => c.visits

def idents : Tree → List Ident
  | stmt s => s.idents
  | expr e => e.idents
  | pattern p => p.idents
  | func f => f.idents
  | classNode c => c.idents

def pieces (n : Nat) : Tree → List Piece
  | stmt s => s.pieces n
  | expr e => e.pieces n
  | pattern p => p.pieces n
  | func f => f.pieces n
  | classNode c => c.pieces n

theorem walks (t : Tree) : Walks t.visits t.idents := by
  cases t with
  | stmt s => exact s.walks
  | expr e => exact e.walks
  | pattern p => exact p.walks
  | func f => exact f.walks
  | classNode c => exact c.walks

theorem shows (n : Nat) (t : Tree) (h : AllWritten t.visits) : ShowsIdents (t.pieces n) t.idents := by
  cases t with
  | stmt s => exact s.shows n h
  | expr e => exact e.shows n h
  | pattern p => exact p.shows n h
  | func f => exact f.shows n h
  | classNode c => exact c.shows n h

/-- A walk meets every identifier of a tree once, and the tree prints each of them once, in the order
of its parts. The walk meets them in the order in which they are printed if no loop has identifiers
both in its body and in its trailing test, and where all identifiers differ only then. -/
theorem walk_in_printed_order (t : Tree) (n : Nat) (h : AllWritten t.visits) :
    (identsIn t.visits).Perm t.idents ∧ printedIdents (t.pieces n) = t.idents ∧
      (OneSided t.visits → identsIn t.visits = printedIdents (t.pieces n)) ∧
      (t.idents.Nodup → identsIn t.visits = printedIdents (t.pieces n) → OneSided t.visits) := by
  have hprinted : printedIdents (t.pieces n) = t.idents := t.shows n h
  refine ⟨t.walks.perm, hprinted, fun hone => ?_, fun hnodup heq => ?_⟩
  · exact (t.walks.ordered hone).trans hprinted.symm
  · exact t.walks.oneSided hnodup (heq.trans hprinted)

/-- `for (; a;) do b; while (1);` -/
def counted : Tree :=
  let read (n : Nat) (name : String) : Expr := .ident ⟨.numbered n, name⟩
  .stmt (.forLoop .absent (some (read 0 "a")) none
    (.doWhile (.expr (read 1 "b")) (.literal (.number "1"))))

theorem walk_in_printed_order_counted : AllWritten counted.visits ∧ OneSided counted.visits ∧
    identsIn counted.visits = printedIdents (counted.pieces 0) := by
  have hwritten : AllWritten counted.visits := by decide
  have hone : OneSided counted.visits := by
    unfold OneSided
    decide
  exact ⟨hwritten, hone, (walk_in_printed_order counted 0 hwritten).2.2.1 hone⟩

/-- A walk of `do a; while (b);` meets the test before the body that is printed before it. -/
theorem trailingTest_met_first :
    let loop : Tree := .stmt (.doWhile (.expr (.ident ⟨.numbered 0, "a"⟩))
      (.ident ⟨.numbered 1, "b"⟩))
    AllWritten loop.visits ∧ (identsIn loop.visits).map Ident.name = ["b", "a"] ∧
      (printedIdents (loop.pieces 0)).map Ident.name = ["a", "b"] := by
  decide

end Tree
end RegisterForm
