import RegisterForm.Proofs.Print.Division
import RegisterForm.Proofs.Print.Start
/-!
# Nested statements

A reader of printed statements takes the shortest statement that is complete, and gives an `else`
to the nearest `if` that can have it. So what is read is the tree that was printed, except that
an `else` behind a statement that ends in an `if` without one goes to that `if`.
-/
namespace RegisterForm

/-! ## Outlines -/

/-- How statements stand in one another, with the pieces of the expressions between them. -/
inductive Outline where
  | expr (pieces : List Piece)
  | block (body : List Outline)
  | ifThen (test : List Piece) (yes : Outline)
  | ifElse (test : List Piece) (yes no : Outline)
  /-- A statement with a head in parentheses and a body: a loop, or `with`. -/
  | headed (keyword : String) (head : List Piece) (body : Outline)
  | doWhile (body : Outline) (test : List Piece)
  | labeled (label : String) (body : Outline)

namespace Outline

/-- Whether an `else` right behind a statement belongs to an `if` in it. -/
def endsOpen : Outline → Bool
  | ifThen _ _ => true
  | ifElse _ _ no => no.endsOpen
  | headed _ _ body | labeled _ body => body.endsOpen
  | expr _ | block _ | doWhile _ _ => false

/-- Gives an `else` and what follows it to the nearest `if` that can have it. -/
def attach : Outline → Outline → Outline
  | ifThen test yes, no =>
    if yes.endsOpen then ifThen test (yes.attach no) else ifElse test yes no
  | ifElse test yes other, no => ifElse test yes (other.attach no)
  | headed keyword head body, no => headed keyword head (body.attach no)
  | labeled label body, no => labeled label (body.attach no)
  | o, _ => o

mutual

/-- The outline with each `else` at the nearest `if` that can have it. -/
def nearest : Outline → Outline
  | expr pieces => expr pieces
  | block body => block (allNearest body)
  | ifThen test yes => ifThen test yes.nearest
  | ifElse test yes no => (ifThen test yes.nearest).attach no.nearest
  | headed keyword head body => headed keyword head body.nearest
  | doWhile body test => doWhile body.nearest test
  | labeled label body => labeled label body.nearest

def allNearest : List Outline → List Outline
  | [] => []
  | o :: os => o.nearest :: allNearest os

end

mutual

/-- Whether no `else` stands behind a statement that ends in an `if` without one. -/
def isNearest : Outline → Bool
  | expr _ => true
  | block body => areNearest body
  | ifThen _ yes => yes.isNearest
  | ifElse _ yes no => !yes.endsOpen && yes.isNearest && no.isNearest
  | headed _ _ body | doWhile body _ | labeled _ body => body.isNearest

def areNearest : List Outline → Bool
  | [] => true
  | o :: os => o.isNearest && areNearest os

end

end Outline

/-! ## Each `else` at the nearest `if` -/

namespace Outline

mutual

theorem nearest_eq_self : ∀ o : Outline, o.isNearest = true → o.nearest = o
  | expr _, _ => rfl
  | block body, h => by
    rw [nearest, allNearest_eq_self body h]
  | ifThen test yes, h => by
    rw [nearest, nearest_eq_self yes h]
  | ifElse test yes no, h => by
    rw [isNearest, Bool.and_eq_true, Bool.and_eq_true, Bool.not_eq_true'] at h
    rw [nearest, nearest_eq_self yes h.1.2, nearest_eq_self no h.2, attach, if_neg (by simp [h.1.1])]
  | headed _ _ body, h => by
    rw [nearest, nearest_eq_self body h]
  | doWhile body _, h => by
    rw [nearest, nearest_eq_self body h]
  | labeled _ body, h => by
    rw [nearest, nearest_eq_self body h]

theorem allNearest_eq_self : ∀ os : List Outline, areNearest os = true → allNearest os = os
  | [], _ => rfl
  | o :: os, h => by
    rw [areNearest, Bool.and_eq_true] at h
    rw [allNearest, nearest_eq_self o h.1, allNearest_eq_self os h.2]

end

theorem isNearest_attach {no : Outline} (hno : no.isNearest = true) :
    ∀ o : Outline, o.isNearest = true → (o.attach no).isNearest = true
  | expr _, h | block _, h | doWhile _ _, h => h
  | ifThen test yes, h => by
    rw [attach]
    split
    · exact isNearest_attach hno yes h
    · next hclosed =>
      have hyes : yes.isNearest = true := h
      simp [isNearest, hclosed, hno, hyes]
  | ifElse test yes other, h => by
    rw [isNearest, Bool.and_eq_true] at h
    rw [attach, isNearest, h.1, isNearest_attach hno other h.2, Bool.true_and]
  | headed _ _ body, h => isNearest_attach hno body h
  | labeled _ body, h => isNearest_attach hno body h

mutual

theorem isNearest_nearest : ∀ o : Outline, o.nearest.isNearest = true
  | expr _ => rfl
  | block body => areNearest_allNearest body
  | ifThen _ yes => isNearest_nearest yes
  | ifElse _ yes no => isNearest_attach (isNearest_nearest no) (.ifThen _ yes.nearest) (isNearest_nearest yes)
  | headed _ _ body => isNearest_nearest body
  | doWhile body _ => isNearest_nearest body
  | labeled _ body => isNearest_nearest body

theorem areNearest_allNearest : ∀ os : List Outline, areNearest (allNearest os) = true
  | [] => rfl
  | o :: os => by
    rw [allNearest, areNearest, isNearest_nearest o, areNearest_allNearest os, Bool.true_and]

end

theorem nearest_eq_self_iff (o : Outline) : o.nearest = o ↔ o.isNearest = true :=
  ⟨fun h => h ▸ isNearest_nearest o, nearest_eq_self o⟩

end Outline

/-! ## Reading -/

/-- The first piece that is no white space, and what stands behind it. -/
def lead : List Piece → Option (Piece × List Piece)
  | [] => none
  | p :: ps => if p.token?.isSome then some (p, ps) else lead ps

/-- What stands behind a keyword or punctuator, if that comes first. -/
def readSym (text : String) (ps : List Piece) : Option (List Piece) :=
  match lead ps with
  | some (p, rest) => if p.token? = some (.symbol text) then some rest else none
  | none => none

/-- What stands in parentheses, if these come first, and behind them. -/
def readHead (ps : List Piece) : Option (List Piece × List Piece) :=
  (readSym "(" ps).bind (spanTo ")" 0)

/-- What the first piece of a statement tells of it. -/
inductive Opening where
  | brace | ifWord | doWord
  | headed (keyword : String)
  /-- A word that begins a statement of another kind, or none at all. -/
  | refused
  /-- A word that is a label or begins an expression. -/
  | word (text : String)
  | other
  deriving DecidableEq

/-- The words that no expression begins with, in strict code, besides those of `Opening`. -/
def otherStatements : List String :=
  ["break", "case", "catch", "const", "continue", "debugger", "default", "else", "enum", "export",
    "extends", "finally", "in", "instanceof", "let", "return", "switch", "throw", "try", "var"]

def Piece.opening (p : Piece) : Opening :=
  match p.token? with
  | some (.word text) =>
    if text = "if" then .ifWord
    else if text = "do" then .doWord
    else if ["for", "while", "with"].contains text then .headed text
    else if otherStatements.contains text then .refused
    else .word text
  | some (.punctuator "\x7b") => .brace
  | _ => .other

/-- The keywords before a head, and what stands behind them. -/
def withAwait (keyword : String) (ps : List Piece) : String × List Piece :=
  match readSym "await" ps with
  | some rest => if keyword = "for" then ("for await", rest) else (keyword, ps)
  | none => (keyword, ps)

/-- An expression and the semicolon behind it. It may not start as a block, a function or a
class. -/
def readExpr (ps : List Piece) : Option (Outline × List Piece) :=
  if startOf ps = .other then
    (spanTo ";" 0 ps).map fun (inner, rest) => (.expr inner, rest)
  else none

mutual

/-- Reads one statement, and gives what stands behind it. -/
def readStmt : Nat → List Piece → Option (Outline × List Piece)
  | 0, _ => none
  | fuel + 1, ps =>
    match lead ps with
    | none => none
    | some (p, rest) =>
      match p.opening with
      | .brace => (readStmts fuel rest).map fun (body, rest) => (.block body, rest)
      | .ifWord =>
        match readHead rest with
        | none => none
        | some (test, rest) =>
          match readStmt fuel rest with
          | none => none
          | some (yes, rest) =>
            match readSym "else" rest with
            | none => some (.ifThen test yes, rest)
            | some rest => (readStmt fuel rest).map fun (no, rest) => (.ifElse test yes no, rest)
      | .doWord =>
        match readStmt fuel rest with
        | none => none
        | some (body, rest) =>
          match (readSym "while" rest).bind readHead with
          | none => none
          | some (test, rest) => (readSym ";" rest).map fun rest => (.doWhile body test, rest)
      | .headed keyword =>
        match readHead (withAwait keyword rest).2 with
        | none => none
        | some (head, behind) =>
          (readStmt fuel behind).map fun (body, behind) =>
            (.headed (withAwait keyword rest).1 head body, behind)
      | .refused => none
      | .word label =>
        match readSym ":" rest with
        | some rest => (readStmt fuel rest).map fun (body, rest) => (.labeled label body, rest)
        | none => readExpr (p :: rest)
      | .other => readExpr (p :: rest)

/-- Reads statements up to the brace that closes them. -/
def readStmts : Nat → List Piece → Option (List Outline × List Piece)
  | 0, _ => none
  | fuel + 1, ps =>
    match readSym "\x7d" ps with
    | some rest => some ([], rest)
    | none =>
      match readStmt fuel ps with
      | none => none
      | some (o, rest) => (readStmts fuel rest).map fun (os, rest) => (o :: os, rest)

end

/-- With enough fuel one statement is read, and what stands behind it is left. -/
def Parses (ps : List Piece) (o : Outline) (rest : List Piece) : Prop :=
  ∃ enough, ∀ fuel, enough ≤ fuel → readStmt fuel ps = some (o, rest)

/-- The same for statements and the brace that closes them. -/
def ParsesAll (ps : List Piece) (os : List Outline) (rest : List Piece) : Prop :=
  ∃ enough, ∀ fuel, enough ≤ fuel → readStmts fuel ps = some (os, rest)

/-! ## The grammar of statements -/

section Rules
variable {p : Piece} {ps qs rs rest : List Piece} {o yes no body : Outline} {os : List Outline}
variable {test ts behind : List Piece}

attribute [local simp] readStmt readStmts

/-- One more fuel than the parts of a statement take. -/
theorem Parses.of_step (enough : Nat)
    (h : ∀ fuel, enough ≤ fuel → readStmt (fuel + 1) ps = some (o, rest)) : Parses ps o rest := by
  refine ⟨enough + 1, fun fuel hfuel => ?_⟩
  obtain ⟨k, rfl⟩ := Nat.exists_eq_add_of_le' hfuel
  exact h (k + enough) (Nat.le_add_left enough k)

theorem parses_block (hlead : lead ps = some (p, qs)) (hp : p.opening = .brace)
    (hbody : ParsesAll qs os rest) : Parses ps (.block os) rest := by
  obtain ⟨m, hbody⟩ := hbody
  refine .of_step m fun fuel hfuel => ?_
  simp [hlead, hp, hbody fuel hfuel]

theorem parses_ifThen (hlead : lead ps = some (p, qs)) (hp : p.opening = .ifWord)
    (hhead : readHead qs = some (test, rs)) (hyes : Parses rs yes rest)
    (hrest : readSym "else" rest = none) : Parses ps (.ifThen test yes) rest := by
  obtain ⟨m, hyes⟩ := hyes
  refine .of_step m fun fuel hfuel => ?_
  simp [hlead, hp, hhead, hyes fuel hfuel, hrest]

theorem parses_ifElse (hlead : lead ps = some (p, qs)) (hp : p.opening = .ifWord)
    (hhead : readHead qs = some (test, rs)) (hyes : Parses rs yes behind)
    (helse : readSym "else" behind = some ts) (hno : Parses ts no rest) :
    Parses ps (.ifElse test yes no) rest := by
  obtain ⟨m, hyes⟩ := hyes
  obtain ⟨k, hno⟩ := hno
  refine .of_step (m + k) fun fuel hfuel => ?_
  simp [hlead, hp, hhead, hyes fuel (by omega), helse, hno fuel (by omega)]

theorem parses_headed {keyword : String} (hlead : lead ps = some (p, qs))
    (hp : p.opening = .headed keyword) (hhead : readHead (withAwait keyword qs).2 = some (test, rs))
    (hbody : Parses rs body rest) :
    Parses ps (.headed (withAwait keyword qs).1 test body) rest := by
  obtain ⟨m, hbody⟩ := hbody
  refine .of_step m fun fuel hfuel => ?_
  simp [hlead, hp, hhead, hbody fuel hfuel]

theorem parses_doWhile (hlead : lead ps = some (p, qs)) (hp : p.opening = .doWord)
    (hbody : Parses qs body rs) (hhead : (readSym "while" rs).bind readHead = some (test, behind))
    (hrest : readSym ";" behind = some rest) : Parses ps (.doWhile body test) rest := by
  obtain ⟨m, hbody⟩ := hbody
  refine .of_step m fun fuel hfuel => ?_
  simp [hlead, hp, hbody fuel hfuel, hhead, hrest]

theorem parses_labeled {label : String} (hlead : lead ps = some (p, qs))
    (hp : p.opening = .word label) (hcolon : readSym ":" qs = some rs) (hbody : Parses rs body rest) :
    Parses ps (.labeled label body) rest := by
  obtain ⟨m, hbody⟩ := hbody
  refine .of_step m fun fuel hfuel => ?_
  simp [hlead, hp, hcolon, hbody fuel hfuel]

/-- Neither a word before a colon nor the start of another statement. -/
theorem parses_expr (hlead : lead ps = some (p, qs))
    (hp : p.opening = .other ∨ (∃ text, p.opening = .word text) ∧ readSym ":" qs = none)
    (hexpr : readExpr (p :: qs) = some (o, rest)) : Parses ps o rest := by
  refine .of_step 0 fun fuel _ => ?_
  obtain hp | ⟨⟨text, hp⟩, hcolon⟩ := hp
  · simp [hlead, hp, hexpr]
  · simp [hlead, hp, hcolon, hexpr]

theorem parsesAll_nil (hclose : readSym "\x7d" ps = some rest) : ParsesAll ps [] rest := by
  refine ⟨1, fun fuel hfuel => ?_⟩
  obtain ⟨k, rfl⟩ := Nat.exists_eq_add_of_le' hfuel
  simp [hclose]

theorem parsesAll_cons (hclose : readSym "\x7d" ps = none) (ho : Parses ps o behind)
    (hos : ParsesAll behind os rest) : ParsesAll ps (o :: os) rest := by
  obtain ⟨m, ho⟩ := ho
  obtain ⟨k, hos⟩ := hos
  refine ⟨m + k + 1, fun fuel hfuel => ?_⟩
  obtain ⟨l, rfl⟩ := Nat.exists_eq_add_of_le' hfuel
  simp [hclose, ho (l + (m + k)) (by omega), hos (l + (m + k)) (by omega)]

end Rules

/-! ## Reading on -/

/-- How a reader that has an outline behind it goes on: an `else` that comes next may belong to an
`if` at the end of the outline. -/
inductive Resumes : Outline → List Piece → Outline → List Piece → Prop
  | expr {pieces rest} : Resumes (.expr pieces) rest (.expr pieces) rest
  | block {body rest} : Resumes (.block body) rest (.block body) rest
  | doWhile {body test rest} : Resumes (.doWhile body test) rest (.doWhile body test) rest
  | headed {keyword head body body' ps rest} : Resumes body ps body' rest →
      Resumes (.headed keyword head body) ps (.headed keyword head body') rest
  | labeled {label body body' ps rest} : Resumes body ps body' rest →
      Resumes (.labeled label body) ps (.labeled label body') rest
  | ifElse {test yes no no' ps rest} : Resumes no ps no' rest →
      Resumes (.ifElse test yes no) ps (.ifElse test yes no') rest
  | ifThen {test yes yes' ps rest} : Resumes yes ps yes' rest → readSym "else" rest = none →
      Resumes (.ifThen test yes) ps (.ifThen test yes') rest
  | takesElse {test yes yes' no ps behind qs rest} : Resumes yes ps yes' behind →
      readSym "else" behind = some qs → Parses qs no rest →
      Resumes (.ifThen test yes) ps (.ifElse test yes' no) rest

namespace Resumes
variable {o no o' : Outline} {ps qs rest : List Piece}

/-- What ends in no open `if`, or has no `else` behind it, is complete. -/
theorem refl (o : Outline) (rest : List Piece) (h : o.endsOpen = true → readSym "else" rest = none) :
    Resumes o rest o rest := by
  match o with
  | .expr _ => exact .expr
  | .block _ => exact .block
  | .doWhile _ _ => exact .doWhile
  | .headed _ _ body => exact .headed (refl body rest h)
  | .labeled _ body => exact .labeled (refl body rest h)
  | .ifElse _ _ no => exact .ifElse (refl no rest h)
  | .ifThen _ yes => exact .ifThen (refl yes rest fun _ => h rfl) (h rfl)

/-- Who gave an `else` to an outline goes on like one who finds that `else` next. -/
theorem of_attach (helse : readSym "else" ps = some (qs ++ rest))
    (hno : ∀ {no' after}, Resumes no rest no' after → Parses (qs ++ rest) no' after)
    {after : List Piece} : ∀ o : Outline, o.endsOpen = true → ∀ {o'},
      Resumes (o.attach no) rest o' after → Resumes o ps o' after
  | .ifThen test yes, _, _, h => by
    rw [Outline.attach] at h
    split at h
    · next hopen =>
      cases h with
      | ifThen hyes hrest => exact .ifThen (of_attach helse hno yes hopen hyes) hrest
      | takesElse hyes hnext hparses =>
        exact .takesElse (of_attach helse hno yes hopen hyes) hnext hparses
    · next hclosed =>
      cases h with
      | ifElse h => exact .takesElse (refl yes ps fun hopen => absurd hopen hclosed) helse (hno h)
  | .ifElse _ _ other, hopen, _, .ifElse h => .ifElse (of_attach helse hno other hopen h)
  | .headed _ _ body, hopen, _, .headed h => .headed (of_attach helse hno body hopen h)
  | .labeled _ body, hopen, _, .labeled h => .labeled (of_attach helse hno body hopen h)

end Resumes

/-! ## Keywords and heads -/

section Lead
variable {text : String} {p : Piece} {ps qs : List Piece}

theorem lead_append (h : lead ps = some (p, qs)) (rest : List Piece) :
    lead (ps ++ rest) = some (p, qs ++ rest) := by
  fun_induction lead ps with
  | case1 => cases h
  | case2 q qs' hq =>
    obtain ⟨rfl, rfl⟩ : q = p ∧ qs' = qs := by simpa using h
    rw [List.cons_append, lead, if_pos hq]
  | case3 q qs' hq ih => rw [List.cons_append, lead, if_neg hq, ih h]

theorem readSym_self (text : String) (ps : List Piece) : readSym text (.sym text :: ps) = some ps :=
  if_pos rfl

/-- Different keywords and punctuators are read differently. -/
theorem symbol_inj {text other : String} (h : Token.symbol text = Token.symbol other) :
    text = other := by
  unfold Token.symbol at h
  split at h <;> split at h <;> simp_all

theorem symbol_ne {text other : String} (h : text ≠ other := by decide) :
    (Piece.sym text).token? ≠ some (.symbol other) := fun htoken =>
  h (symbol_inj (Option.some.inj htoken))

theorem readSym_other {other : String} (ps : List Piece) (h : other ≠ text := by decide) :
    readSym text (.sym other :: ps) = none :=
  if_neg (symbol_ne h)

theorem readSym_eq_none (h : lead ps = some (p, qs)) (hp : p.token? ≠ some (.symbol text)) :
    readSym text ps = none := by
  simp [readSym, h, hp]

/-- What stands in parentheses is read to the bracket that closes them. -/
theorem readHead_enclosed {inner : List Piece} (h : Balanced inner) (rest : List Piece) :
    readHead (enclosed "(" ")" inner ++ rest) = some (inner, rest) := by
  have hspan : spanTo ")" 0 (inner ++ .sym ")" :: rest) = some (inner, rest) :=
    h.spanTo_append rfl rest
  have hopen := readSym_self "(" (inner ++ .sym ")" :: rest)
  simp [readHead, enclosed, hopen, hspan]

section Gap
variable {gap : Piece} (hgap : gap.token? = none)
include hgap

theorem lead_gap (ps : List Piece) : lead (gap :: ps) = lead ps := by
  rw [lead, hgap, if_neg (by simp)]

theorem readSym_gap (text : String) (ps : List Piece) :
    readSym text (gap :: ps) = readSym text ps := by
  rw [readSym, lead_gap hgap, readSym]

theorem readHead_gap (ps : List Piece) : readHead (gap :: ps) = readHead ps := by
  rw [readHead, readSym_gap hgap, readHead]

/-- White space before a statement is passed over. -/
theorem Parses.of_gap {o : Outline} {rest : List Piece} (h : Parses ps o rest) :
    Parses (gap :: ps) o rest := by
  obtain ⟨m, h⟩ := h
  refine ⟨m, fun fuel hfuel => ?_⟩
  rw [← h fuel hfuel]
  cases fuel with
  | zero => rfl
  | succ fuel => rw [readStmt, lead_gap hgap, readStmt]

end Gap

end Lead

/-- With fuel enough for both, one statement is read in one way. -/
theorem Parses.unique {ps rest rest' : List Piece} {o o' : Outline} (h : Parses ps o rest)
    (h' : Parses ps o' rest') : o = o' ∧ rest = rest' := by
  obtain ⟨m, h⟩ := h
  obtain ⟨k, h'⟩ := h'
  have heq := (h (m + k) (Nat.le_add_right m k)).symm.trans (h' (m + k) (Nat.le_add_left k m))
  exact Prod.mk.inj (Option.some.inj heq)

end RegisterForm
