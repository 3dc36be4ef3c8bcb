import RegisterForm.Proofs.Print.Opening
import RegisterForm.Proofs.Print.Restricted
/-!
# Printed statements read back

Each kind of statement prints pieces that a reader takes as one statement and leaves as soon as it
is complete. By induction on the tree, what is read is its outline with each `else` at the nearest
`if`; that is the outline itself unless an `else` stands behind a statement that ends in an `if`
without one.
-/
namespace RegisterForm

/-! ## Printed statements -/

/-- Pieces that are read as an outline, whatever follows them, if the reader then goes on from that
outline. -/
structure Prints (ps : List Piece) (o : Outline) : Prop where
  starts : ∃ p qs, lead ps = some (p, qs) ∧ p.token? ≠ some (.symbol "else")
    ∧ p.token? ≠ some (.symbol "\x7d")
  parses : ∀ {rest o' after}, Resumes o rest o' after → Parses (ps ++ rest) o' after

namespace Prints
variable {ps qs test : List Piece} {o yes no body : Outline}

theorem noElse (h : Prints ps o) (rest : List Piece) : readSym "else" (ps ++ rest) = none := by
  obtain ⟨p, qs, hlead, hp, -⟩ := h.starts
  exact readSym_eq_none (lead_append hlead rest) hp

theorem noClose (h : Prints ps o) (rest : List Piece) : readSym "\x7d" (ps ++ rest) = none := by
  obtain ⟨p, qs, hlead, -, hp⟩ := h.starts
  exact readSym_eq_none (lead_append hlead rest) hp

theorem ifThen (htest : Balanced test) (hyes : Prints qs yes) :
    Prints (.sym "if" :: .space :: enclosed "(" ")" test ++ .space :: qs) (.ifThen test yes) := by
  refine ⟨⟨_, _, rfl, symbol_ne, symbol_ne⟩, fun {rest o' after} h => ?_⟩
  have hhead := readHead_enclosed htest (.space :: (qs ++ rest))
  rw [List.append_assoc, List.cons_append, List.cons_append]
  cases h with
  | ifThen h hrest =>
    exact parses_ifThen rfl (by decide +kernel) hhead ((hyes.parses h).of_gap rfl) hrest
  | takesElse h helse hno =>
    exact parses_ifElse rfl (by decide +kernel) hhead ((hyes.parses h).of_gap rfl) helse hno

/-- An `else` goes to the nearest `if` before it. -/
theorem attach (hps : Prints ps o) (hopen : o.endsOpen = true) (hno : Prints qs no) {gap : Piece}
    (hgap : gap.token? = none) :
    Prints (ps ++ gap :: .sym "else" :: .space :: qs) (o.attach no) := by
  obtain ⟨p, qs', hlead, hp⟩ := hps.starts
  refine ⟨⟨p, _, lead_append hlead _, hp⟩, fun {rest o' after} h => ?_⟩
  rw [List.append_assoc]
  apply hps.parses
  have helse : readSym "else" (gap :: .sym "else" :: .space :: (qs ++ rest))
      = some (.space :: qs ++ rest) := by
    rw [readSym_gap hgap, readSym_self, List.cons_append]
  exact Resumes.of_attach helse (fun hresumes => (hno.parses hresumes).of_gap rfl) o hopen h

/-- A loop that counts or checks first, and `with`; a loop over an iterable may await. -/
theorem headed {word : String} (isAwait : Bool) (hword : word ∈ ["for", "while", "with"])
    (hawait : isAwait = true → word = "for") (htest : Balanced test) (hbody : Prints qs body) :
    Prints (.sym word :: .space :: spacedIf isAwait "await" ++ enclosed "(" ")" test ++ .space :: qs)
      (.headed (if isAwait then "for await" else word) test body) := by
  have hwords : ∀ word ∈ ["for", "while", "with"], (Piece.sym word).opening = .headed word
      ∧ word ≠ "else" ∧ word ≠ "\x7d" := by decide +kernel
  obtain ⟨hopening, helse, hclose⟩ := hwords word hword
  refine ⟨⟨_, _, rfl, symbol_ne helse, symbol_ne hclose⟩, fun {rest o' after} h => ?_⟩
  have hlead : ∀ ps, lead (.sym word :: ps) = some (.sym word, ps) := fun _ => rfl
  have hhead := readHead_enclosed htest (.space :: (qs ++ rest))
  have hkeyword : withAwait word (.space :: (spacedIf isAwait "await" ++
      (enclosed "(" ")" test ++ .space :: (qs ++ rest)))) =
        (if isAwait then "for await" else word,
          .space :: (enclosed "(" ")" test ++ .space :: (qs ++ rest))) := by
    cases isAwait with
    | false =>
      have hnone : readSym "await" (.space :: (enclosed "(" ")" test ++ .space :: (qs ++ rest)))
          = none := readSym_other _
      simp [withAwait, spacedIf, hnone]
    | true =>
      have hsome : readSym "await" (.space :: .sym "await" :: .space ::
          (enclosed "(" ")" test ++ .space :: (qs ++ rest))) =
            some (.space :: (enclosed "(" ")" test ++ .space :: (qs ++ rest))) := by
        rw [readSym_gap rfl, readSym_self]
      simp [withAwait, spacedIf, hsome, hawait rfl]
  cases h with
  | headed h =>
    have hrule := parses_headed (hlead _) hopening (by rw [hkeyword, readHead_gap rfl, hhead])
      ((hbody.parses h).of_gap rfl)
    simpa [hkeyword] using hrule

theorem doWhile {gap : Piece} (hgap : gap.token? = none) (htest : Balanced test)
    (hbody : Prints qs body) :
    Prints (.sym "do" :: .space :: qs ++ gap :: .sym "while" :: .space :: enclosed "(" ")" test
      ++ [.sym ";"]) (.doWhile body test) := by
  refine ⟨⟨_, _, rfl, symbol_ne, symbol_ne⟩, fun {rest o' after} h => ?_⟩
  have hhead := readHead_enclosed htest (.sym ";" :: rest)
  have hwhile : (readSym "while" (gap :: .sym "while" :: .space ::
      (enclosed "(" ")" test ++ .sym ";" :: rest))).bind readHead = some (test, .sym ";" :: rest) := by
    rw [readSym_gap hgap, readSym_self, Option.bind_some, readHead_gap rfl, hhead]
  have hnone : readSym "else" (gap :: .sym "while" :: .space ::
      (enclosed "(" ")" test ++ .sym ";" :: rest)) = none := by
    rw [readSym_gap hgap]
    exact readSym_other _
  cases h
  have hbody := (hbody.parses (Resumes.refl body _ fun _ => hnone)).of_gap (rfl : Piece.space.token? = none)
  simpa using parses_doWhile rfl (by decide +kernel) hbody hwhile (readSym_self ";" rest)

theorem labeled {label : String} (hlabel : isStrictName label = true) (hbody : Prints qs body) :
    Prints (.name label :: .sym ":" :: .space :: qs) (.labeled label body) := by
  refine ⟨⟨_, _, rfl, ?_, ?_⟩, fun {rest o' after} h => ?_⟩
  · intro htoken
    obtain rfl : label = "else" := Token.word.inj (Option.some.inj htoken)
    exact absurd hlabel (by decide +kernel)
  · rw [symbol_closing]
    simp [Piece.token?]
  · cases h with
    | labeled h =>
      exact parses_labeled rfl (opening_of_isStrictName rfl hlabel) (readSym_self ":" _)
        ((hbody.parses h).of_gap rfl)

end Prints

/-! ## Expression statements -/

/-- The pieces of an expression statement before its semicolon. -/
def exprStmtPieces (n : Nat) (e : Expr) : List Piece :=
  parenthesized (startsAmbiguously (e.pieces n)) (e.pieces n)

/-- Outside of its brackets an expression statement shows no semicolon. -/
theorem spanTo_exprStmt (n : Nat) (e : Expr) (rest : List Piece) :
    spanTo ";" 0 (exprStmtPieces n e ++ .sym ";" :: rest) = some (exprStmtPieces n e, rest) := by
  have hnests := (e.nests n).parenthesized (startsAmbiguously (e.pieces n))
  refine hnests.spanTo_append (fun hmem => ?_) rfl (.inr rfl) rest
  obtain ⟨-, hmem⟩ := mem_unlessParenthesized.mp hmem
  obtain hin | ⟨hcomma, -⟩ := e.dividers_cases hmem
  · exact absurd hin (by decide)
  · exact absurd hcomma (by decide)

theorem Prints.expr (n : Nat) {e : Expr} (he : e ≠ .sequence [])
    (hnames : ∀ x ∈ identsIn e.visits, isStrictName x.name = true) :
    Prints ((Stmt.expr e).pieces n) (.expr (exprStmtPieces n e)) := by
  have hopens : Opens (identsIn e.visits) (exprStmtPieces n e) := by
    rw [exprStmtPieces]
    cases startsAmbiguously (e.pieces n) with
    | true => exact .inParens _
    | false => exact e.opens n _ he (List.Subset.refl _)
  have hpieces : (Stmt.expr e).pieces n = exprStmtPieces n e ++ [.sym ";"] := rfl
  have hspan := spanTo_exprStmt n e
  have hstart := startOf_exprStmt_append n e
  rw [hpieces] at hstart ⊢
  -- The word that leads, if one does, and what is behind it.
  obtain ⟨p, qs, heq, hleads, hcolon⟩ : ∃ p qs, exprStmtPieces n e = p :: qs
      ∧ p.Leads (identsIn e.visits) ∧ (p.isWord = true → readSym ":" qs = none) := by
    generalize exprStmtPieces n e = ps at hopens
    cases hopens with
    | word hp hqs => exact ⟨_, _, rfl, hp, fun _ => hqs⟩
    | mark hp hmark => exact ⟨_, _, rfl, hp, fun hword => absurd hword (by simp [hmark])⟩
  obtain ⟨helse, hopening⟩ := hleads.opening hnames
  obtain ⟨hsome, -, hclose⟩ := hleads.token
  have hlead : ∀ ps, lead (p :: ps) = some (p, ps) := fun ps => if_pos hsome
  rw [heq] at hspan hstart ⊢
  refine ⟨⟨p, _, hlead _, helse, hclose⟩, fun {rest o' after} h => ?_⟩
  cases h
  have hexpr : readExpr (p :: (qs ++ .sym ";" :: rest)) = some (.expr (p :: qs), rest) := by
    have hstart := hstart rest
    rw [List.cons_append, List.cons_append, List.append_assoc] at hstart
    rw [readExpr, if_pos (by simpa using hstart)]
    have hspan := hspan rest
    rw [List.cons_append] at hspan
    rw [hspan, Option.map_some]
  have hrule : Parses (p :: (qs ++ .sym ";" :: rest)) (.expr (p :: qs)) rest := by
    refine parses_expr (hlead _) ?_ hexpr
    obtain rfl | hother | ⟨text, hword, hisWord⟩ := hopening
    · exact absurd (hstart rest) (by simp [startOf])
    · exact .inl hother
    · refine .inr ⟨⟨text, hword⟩, readSym_append_eq_none (hcolon hisWord) (readSym_other rest)⟩
  simpa using hrule

/-! ## Blocks -/

/-- Statements on lines of their own, and the brace that closes them. -/
theorem parsesAll_lines (n : Nat) {items : List (List Piece)} {os : List Outline}
    (h : List.Forall₂ Prints items os) (rest : List Piece) :
    ParsesAll (items.flatMap (.line (n + 1) :: ·) ++ .line n :: .sym "\x7d" :: rest) os rest := by
  induction h with
  | nil => exact parsesAll_nil (readSym_self _ rest)
  | @cons item o items os hitem hitems ih =>
    have hnoElse : readSym "else"
        (items.flatMap (.line (n + 1) :: ·) ++ .line n :: .sym "\x7d" :: rest) = none := by
      cases hitems with
      | nil =>
        rw [List.flatMap_nil, List.nil_append, readSym_gap rfl]
        exact readSym_other _
      | cons hnext _ =>
        rw [List.flatMap_cons, List.append_assoc, List.cons_append, readSym_gap rfl]
        exact hnext.noElse _
    have hfirst := hitem.parses (Resumes.refl o _ fun _ => hnoElse)
    rw [List.flatMap_cons, List.append_assoc, List.cons_append]
    refine parsesAll_cons ?_ (hfirst.of_gap rfl) ih
    rw [readSym_gap rfl]
    exact hitem.noClose _

theorem Prints.block (n : Nat) {items : List (List Piece)} {os : List Outline}
    (h : List.Forall₂ Prints items os) : Prints (braced n items) (.block os) := by
  refine ⟨⟨_, _, rfl, symbol_ne, symbol_ne⟩, fun {rest o' after} hresumes => ?_⟩
  cases hresumes
  have hrule : Parses (.sym "\x7b" :: (items.flatMap (.line (n + 1) :: ·) ++ .line n ::
      .sym "\x7d" :: rest)) (.block os) rest :=
    parses_block rfl (by decide +kernel) (parsesAll_lines n h rest)
  simpa [braced] using hrule

theorem Prints.emptyBlock : Prints [.sym "\x7b", .space, .sym "\x7d"] (.block []) := by
  refine ⟨⟨_, _, rfl, symbol_ne, symbol_ne⟩, fun {rest o' after} hresumes => ?_⟩
  cases hresumes
  exact parses_block rfl (by decide +kernel) (parsesAll_nil (readSym_self _ rest))

/-! ## Trees of statements -/

/-- The head of a counting loop. -/
def countingHead (n : Nat) (init : ForInit) (test update : Option Expr) : List Piece :=
  init.pieces n ++ .sym ";" :: exprPieces? [.space] n Rank.sequence test
    ++ .sym ";" :: exprPieces? [.space] n Rank.sequence update

/-- The head of a loop over the names of an object. -/
def forInHead (n : Nat) (head : ForHead) (object : Expr) : List Piece :=
  head.pieces n ++ .space :: .sym "in" :: .space :: object.pieces n

/-- The head of a loop over an iterable. -/
def forOfHead (n : Nat) (head : ForHead) (iterable : Expr) : List Piece :=
  head.pieces n ++ .space :: .sym "of" :: .space ::
    parenthesized (iterable.rank < Rank.assign) (iterable.pieces n)

mutual

/-- How statements stand in one another in a tree. -/
def Stmt.outline (n : Nat) : Stmt → Outline
  | .block body => .block (stmtOutlines (n + 1) body)
  | .ifThen test yes => .ifThen (test.pieces n) (yes.outline n)
  | .ifElse test yes no => .ifElse (test.pieces n) (yes.outline n) (no.outline n)
  | .forLoop init test update body =>
    .headed "for" (countingHead n init test update) (body.outline n)
  | .forIn head object body => .headed "for" (forInHead n head object) (body.outline n)
  | .forOf head iterable body isAwait =>
    .headed (if isAwait then "for await" else "for") (forOfHead n head iterable) (body.outline n)
  | .whileLoop test body => .headed "while" (test.pieces n) (body.outline n)
  | .withObject object body => .headed "with" (object.pieces n) (body.outline n)
  | .doWhile body test => .doWhile (body.outline n) (test.pieces n)
  | .labeled label body => .labeled label (body.outline n)
  | .expr e => .expr (exprStmtPieces n e)
  | s => .expr (s.pieces n)

def stmtOutlines (n : Nat) : List Stmt → List Outline
  | [] => []
  | s :: ss => s.outline n :: stmtOutlines n ss

end

/-- Statements built from expression statements, blocks, `if`, loops, labels and `with`. Names are
names of strict code, and no expression is a sequence of none. -/
inductive Stmt.Structured : Stmt → Prop
  | expr {e} : e ≠ .sequence [] → (∀ x ∈ identsIn e.visits, isStrictName x.name = true) →
      Structured (.expr e)
  | block {body} : (∀ s ∈ body, Structured s) → Structured (.block body)
  | ifThen {test yes} : Structured yes → Structured (.ifThen test yes)
  | ifElse {test yes no} : Structured yes → Structured no → Structured (.ifElse test yes no)
  | forLoop {init test update body} : Structured body → Structured (.forLoop init test update body)
  | forIn {head object body} : Structured body → Structured (.forIn head object body)
  | forOf {head iterable body isAwait} : Structured body →
      Structured (.forOf head iterable body isAwait)
  | whileLoop {test body} : Structured body → Structured (.whileLoop test body)
  | doWhile {body test} : Structured body → Structured (.doWhile body test)
  | labeled {label body} : isStrictName label = true → Structured body →
      Structured (.labeled label body)
  | withObject {object body} : Structured body → Structured (.withObject object body)

theorem Stmt.Structured.isAmbient {s : Stmt} (h : s.Structured) : s.isAmbient = false := by
  cases h <;> rfl

theorem gapAfter_blank (n : Nat) (s : Stmt) : (gapAfter n s).token? = none := by
  rw [gapAfter]
  split <;> rfl

theorem prints_lines (n : Nat) {body : List Stmt} (hbody : ∀ s ∈ body, s.Structured)
    (h : ∀ s ∈ body, Prints (s.pieces n) (s.outline n).nearest) :
    List.Forall₂ Prints (stmtLines n body) (Outline.allNearest (stmtOutlines n body)) := by
  induction body with
  | nil => exact .nil
  | cons s ss ih =>
    obtain ⟨hs, hss⟩ := List.forall_mem_cons.mp hbody
    obtain ⟨hprints, hmore⟩ := List.forall_mem_cons.mp h
    rw [stmtLines, if_neg (by simp [hs.isAmbient])]
    exact .cons hprints (ih hss hmore)

/-- Every statement of such a tree prints as the outline of the tree with each `else` at the
nearest `if`. -/
theorem Stmt.Structured.prints {s : Stmt} (h : s.Structured) :
    ∀ n, Prints (s.pieces n) (s.outline n).nearest := by
  induction h with
  | expr he hnames => exact fun n => .expr n he hnames
  | @ifThen test yes hyes ih =>
    intro n
    exact .ifThen (test.nests n).balanced (ih n)
  | @ifElse test yes no hyes hno ihYes ihNo =>
    intro n
    exact (Prints.ifThen (test.nests n).balanced (ihYes n)).attach rfl (ihNo n) (gapAfter_blank n yes)
  | @forLoop init test update body _ ih =>
    intro n
    have hspace : Nests [.space] [] := .word (by simp)
    have hhead := balanced_parts (init.nests n).balanced
      (exprPieces?_nests hspace n Rank.sequence test).balanced
      (exprPieces?_nests hspace n Rank.sequence update).balanced
    exact .headed false (by simp) (by simp) hhead (ih n)
  | @forIn head object body _ ih =>
    intro n
    exact .headed false (by simp) (by simp)
      (balanced_around "in" rfl (head.balanced n) (object.nests n).balanced) (ih n)
  | @forOf head iterable body isAwait _ ih =>
    intro n
    have hhead := balanced_around "of" rfl (head.balanced n)
      ((iterable.nests n).balanced.parenthesized (iterable.rank < Rank.assign))
    exact .headed isAwait (by simp) (by simp) hhead (ih n)
  | @whileLoop test body _ ih =>
    intro n
    exact .headed false (by simp) (by simp) (test.nests n).balanced (ih n)
  | @withObject object body _ ih =>
    intro n
    exact .headed false (by simp) (by simp) (object.nests n).balanced (ih n)
  | @doWhile body test _ ih =>
    intro n
    exact .doWhile (gapAfter_blank n body) (test.nests n).balanced (ih n)
  | @labeled label body hlabel _ ih =>
    intro n
    exact .labeled hlabel (ih n)
  | @block body hbody ih =>
    intro n
    have hlines := prints_lines (n + 1) hbody fun s hs => ih s hs (n + 1)
    change Prints (if body.all Stmt.isAmbient then _ else _) _
    split
    · next hall =>
      have hnil : body = [] := by
        refine List.eq_nil_iff_forall_not_mem.mpr fun s hs => ?_
        have hambient := List.all_eq_true.mp hall s hs
        rw [(hbody s hs).isAmbient] at hambient
        cases hambient
      subst hnil
      exact .emptyBlock
    · exact .block n hlines

/-! ## What is read -/

theorem Stmt.Structured.parses_nearest {s : Stmt} (h : s.Structured) (n : Nat) :
    Parses (s.pieces n) (s.outline n).nearest [] := by
  have hresumes := Resumes.refl (s.outline n).nearest [] fun _ => rfl
  simpa using (h.prints n).parses hresumes

/-- A printed tree of statements reads as the tree with each `else` at the nearest `if` that can
have it, and so as itself exactly if no `else` stands behind a statement that ends in an `if`
without one. -/
theorem Stmt.Structured.reads_nearest {s : Stmt} (h : s.Structured) (n : Nat) :
    Parses (s.pieces n) (s.outline n).nearest []
      ∧ (Parses (s.pieces n) (s.outline n) [] ↔ (s.outline n).isNearest = true) := by
  have hreads := h.parses_nearest n
  refine ⟨hreads, fun hself => ?_, fun hnearest => ?_⟩
  · exact (Outline.nearest_eq_self_iff _).mp (hreads.unique hself).1
  · rwa [Outline.nearest_eq_self _ hnearest] at hreads

section Reads

/-- The statement `x;`. -/
def readOf (name : String) : Stmt := .expr (.ident (.synthetic name))

theorem structured_readOf {name : String} (h : isStrictName name = true) :
    (readOf name).Structured := by
  refine .expr (fun h => by cases h) fun x hx => ?_
  rwa [List.mem_singleton.mp hx]

/-- In a block of its own an `if` keeps clear of the `else` behind the block. -/
theorem reads_nearest_block :
    let s : Stmt := .ifElse (.ident (.synthetic "a"))
      (.block [.ifThen (.ident (.synthetic "b")) (readOf "x")]) (readOf "y")
    s.Structured ∧ Parses (s.pieces 0) (s.outline 0) [] := by
  intro s
  have hs : s.Structured := by
    refine .ifElse (.block fun t ht => ?_) (structured_readOf (by decide +kernel))
    rw [List.mem_singleton.mp ht]
    exact .ifThen (structured_readOf (by decide +kernel))
  exact ⟨hs, (Stmt.Structured.reads_nearest hs 0).2.mpr rfl⟩

/-- An `else` of an outer `if` reads as that of the inner one, which has none. -/
theorem else_moves_to_inner_if :
    let a : Expr := .ident (.synthetic "a")
    let b : Expr := .ident (.synthetic "b")
    let s : Stmt := .ifElse a (.ifThen b (readOf "x")) (readOf "y")
    s.print = "if (a) if (b) x;\nelse y;"
      ∧ s.outline 0 = .ifElse (a.pieces 0) (.ifThen (b.pieces 0) ((readOf "x").outline 0))
          ((readOf "y").outline 0)
      ∧ Parses (s.pieces 0) (.ifThen (a.pieces 0) (.ifElse (b.pieces 0) ((readOf "x").outline 0)
          ((readOf "y").outline 0))) [] := by
  intro a b s
  have hs : s.Structured := .ifElse (.ifThen (structured_readOf (by decide +kernel)))
    (structured_readOf (by decide +kernel))
  exact ⟨by decide +kernel, rfl, hs.parses_nearest 0⟩

end Reads

end RegisterForm
