import RegisterForm.Tree.Shape
import RegisterForm.Print.Rank
/-!
# Printed trees

The pieces of every kind of node. Layout is fixed: properties of objects and statements of
bodies stand on lines of their own, and parentheses follow from ranks.
-/
namespace RegisterForm

def Literal.piece : Literal → Piece
  | string value => .string value
  | number source => .number source
  | boolean true => .sym "true"
  | boolean false => .sym "false"
  | null => .sym "null"
  | regex pattern flags => .regex pattern flags

/-- The text chunks with the printed expressions between them. -/
def templatePieces : List String → List (List Piece) → List Piece
  | [], _ => []
  | chunk :: chunks, [] => .chunk chunk :: templatePieces chunks []
  | chunk :: chunks, part :: parts =>
    .chunk chunk :: enclosed "$\x7b" "\x7d" part ++ templatePieces chunks parts

/-- A list of names or patterns between braces on one line. -/
def bracedNames : List (List Piece) → List Piece
  | [] => [.sym "\x7b", .sym "\x7d"]
  | items => .sym "\x7b" :: .space :: commaSeparated items ++ [.space, .sym "\x7d"]

/-- A comma after the last element, where that is a hole. -/
def trailingHole (endsInHole : Bool) : List Piece :=
  if endsInHole then [.sym ","] else []

/-- Whether the last of a list of elements is a hole. -/
def endsInHole {α : Type} (elements : List (Option α)) : Bool :=
  elements.getLast?.any Option.isNone

def ImportSpecifier.pieces (s : ImportSpecifier) : List Piece :=
  let imported := match s.imported with
    | none => []
    | some name => [.name name, .space, .sym "as", .space]
  spacedIf s.isTypeOnly "type" ++ imported ++ [.ident s.binding]

def ImportBindings.pieces : ImportBindings → List Piece
  | star x => [.sym "*", .space, .sym "as", .space, .ident x]
  | named specifiers => bracedNames (specifiers.map (·.pieces))

def ImportClause.pieces (c : ImportClause) : List Piece :=
  commaSeparated (c.default.toList.map ([.ident ·]) ++ c.bindings.toList.map (·.pieces))

def ExportSpecifier.pieces (s : ExportSpecifier) : List Piece :=
  let exported := match s.exported with
    | none => []
    | some name => [.space, .sym "as", .space, .name name]
  spacedIf s.isTypeOnly "type" ++ .ident s.source :: exported

/-- The names of an export; without a clause, all of them. -/
def exportClausePieces : Option ExportClause → List Piece
  | none => [.sym "*"]
  | some (.star x) => [.sym "*", .space, .sym "as", .space, .ident x]
  | some (.named specifiers) => bracedNames (specifiers.map (·.pieces))

def Modifiers.pieces (m : Modifiers) : List Piece :=
  spacedIf m.isExported "export" ++ spacedIf m.isDefault "default"

def identPieces? (x : Option Ident) : List Piece := x.toList.map .ident

def MethodKind.pieces : MethodKind → List Piece
  | getter => [.sym "get", .space]
  | setter => [.sym "set", .space]
  | method | constructor => []

def jumpPieces (keyword : String) (label : Option String) : List Piece :=
  .sym keyword :: (label.toList.flatMap fun l => [.space, .name l]) ++ [.sym ";"]

/-- The gap before a keyword that follows a slot statement. -/
def gapAfter (level : Nat) (s : Stmt) : Piece := if s.isBlock then .space else .line level

mutual

def Expr.pieces (n : Nat) : Expr → List Piece
  | .ident x => [.ident x]
  | .literal value => [value.piece]
  | .template chunks parts =>
    enclosed "`" "`" (templatePieces chunks (exprsPieces n Rank.sequence parts))
  | .tagged tag chunks parts =>
    parenthesized (tag.rank < Rank.call) (tag.pieces n)
      ++ enclosed "`" "`" (templatePieces chunks (exprsPieces n Rank.sequence parts))
  | .this => [.sym "this"]
  | .super => [.sym "super"]
  | .array elements =>
    if elements.any (·.any Expr.isFunctionLike) then
      enclosed "[" "]" (commaLines (n + 1) (slotsPieces (n + 1) elements) ++ [.line n])
    else
      enclosed "[" "]"
        (commaSeparated (slotsPieces n elements) ++ trailingHole (endsInHole elements))
  | .object [] => [.sym "\x7b", .sym "\x7d"]
  | .object (p :: ps) =>
    enclosed "\x7b" "\x7d"
      (commaLines (n + 1) (p.pieces (n + 1) :: propertiesPieces (n + 1) ps) ++ [.line n])
  | .function f => f.pieces n
  | .arrow params body isAsync =>
    spacedIf isAsync "async" ++ enclosed "(" ")" (commaSeparated (paramsPieces n params))
      ++ .space :: .sym "=>" :: .space :: body.pieces n
  | .classExpr c => c.pieces n
  | .unary op arg =>
    .sym op.text :: (if op.isKeyword || arg.mergesWithSign op then [.space] else [])
      ++ parenthesized (arg.rank < Rank.unary) (arg.pieces n)
  | .update op true arg => .sym op.text :: parenthesized (arg.rank < Rank.unary) (arg.pieces n)
  | .update op false arg =>
    parenthesized (arg.rank < Rank.construct) (arg.pieces n) ++ [.sym op.text]
  | .binary op left right =>
    let (leftMin, rightMin) :=
      if op.isRightAssociative then (op.precedence + 1, op.precedence)
      else (op.precedence, op.precedence + 1)
    parenthesized
        (left.clashesWith op || (op == .exp && left.isUnaryLike) || left.rank < leftMin)
        (left.pieces n)
      ++ .space :: .sym op.text :: .space ::
        parenthesized (right.clashesWith op || right.rank < rightMin) (right.pieces n)
  | .assign op target value =>
    target.pieces n ++ .space :: .sym op.text :: .space ::
      parenthesized (value.rank < Rank.assign) (value.pieces n)
  | .conditional test yes no =>
    parenthesized (test.rank < Rank.conditional + 1) (test.pieces n)
      ++ .space :: .sym "?" :: .space :: parenthesized (yes.rank < Rank.assign) (yes.pieces n)
      ++ .space :: .sym ":" :: .space :: parenthesized (no.rank < Rank.assign) (no.pieces n)
  | .call callee args isOptional =>
    parenthesized (callee.rank < Rank.call) (callee.pieces n)
      ++ (if isOptional then [.sym "?."] else [])
      ++ enclosed "(" ")" (commaSeparated (exprsPieces n Rank.assign args))
  | .newBare callee =>
    .sym "new" :: .space :: parenthesized (!callee.isPlainCallee) (callee.pieces n)
  | .newCall callee args =>
    .sym "new" :: .space :: parenthesized (!callee.isPlainCallee) (callee.pieces n)
      ++ enclosed "(" ")" (commaSeparated (exprsPieces n Rank.assign args))
  | .member owner name isOptional =>
    parenthesized (owner.rank < Rank.call || owner.isNumber) (owner.pieces n)
      ++ [.sym (if isOptional then "?." else "."), .name name]
  | .index owner key isOptional =>
    parenthesized (owner.rank < Rank.call || owner.isNumber) (owner.pieces n)
      ++ (if isOptional then [.sym "?."] else [])
      ++ enclosed "[" "]" (key.pieces n)
  | .sequence exprs => commaSeparated (exprsPieces n Rank.assign exprs)
  | .paren inner => enclosed "(" ")" (inner.pieces n)
  | .yield arg isDelegate =>
    .sym (if isDelegate then "yield*" else "yield") :: exprPieces? [.space] n Rank.assign arg
  | .await arg =>
    .sym "await" :: .space :: parenthesized (arg.rank < Rank.unary) (arg.pieces n)
  | .spread arg => .sym "..." :: parenthesized (arg.rank < Rank.assign) (arg.pieces n)
  | .importCall specifier =>
    .sym "import" ::
      enclosed "(" ")" (parenthesized (specifier.rank < Rank.assign) (specifier.pieces n))
  | .importMeta => [.sym "import", .sym ".", .name "meta"]

/-- Each expression in a slot that asks for a rank. -/
def exprsPieces (n : Nat) (min : Rank) : List Expr → List (List Piece)
  | [] => []
  | e :: es => parenthesized (e.rank < min) (e.pieces n) :: exprsPieces n min es

/-- An optional expression in a slot that asks for a rank, after what introduces it. -/
def exprPieces? (intro : List Piece) (n : Nat) (min : Rank) : Option Expr → List Piece
  | none => []
  | some e => intro ++ parenthesized (e.rank < min) (e.pieces n)

def slotsPieces (n : Nat) : List (Option Expr) → List (List Piece)
  | [] => []
  | e :: es => exprPieces? [] n Rank.assign e :: slotsPieces n es

def Key.pieces (n : Nat) : Key → List Piece
  | .name text => [.name text]
  | .string text => [.string text]
  | .number source => [.number source]
  | .computed e => enclosed "[" "]" (parenthesized (e.rank < Rank.assign) (e.pieces n))

def Property.pieces (n : Nat) : Property → List Piece
  | .keyed key value =>
    key.pieces n ++ .sym ":" :: .space :: parenthesized (value.rank < Rank.assign) (value.pieces n)
  | .shorthand x => [.ident x]
  | .method key kind f => f.methodPieces n kind (key.pieces n)
  | .spread e => .sym "..." :: parenthesized (e.rank < Rank.assign) (e.pieces n)

def propertiesPieces (n : Nat) : List Property → List (List Piece)
  | [] => []
  | p :: ps => p.pieces n :: propertiesPieces n ps

def Pattern.pieces (n : Nat) : Pattern → List Piece
  | .ident x => [.ident x]
  | .expr e => parenthesized (e.rank < Rank.call) (e.pieces n)
  | .object properties rest =>
    bracedNames (patternPropertiesPieces n properties ++ restPieces n rest)
  | .array elements rest =>
    enclosed "[" "]"
      (commaSeparated (patternSlotsPieces n elements ++ restPieces n rest)
        ++ trailingHole (rest.isNone && endsInHole elements))

def restPieces (n : Nat) : Option Pattern → List (List Piece)
  | none => []
  | some p => [.sym "..." :: p.pieces n]

def PatternProperty.pieces (n : Nat) : PatternProperty → List Piece
  | .keyed key target fallback =>
    key.pieces n ++ .sym ":" :: .space :: target.pieces n
      ++ exprPieces? [.space, .sym "=", .space] n Rank.assign fallback
  | .shorthand x fallback =>
    .ident x :: exprPieces? [.space, .sym "=", .space] n Rank.assign fallback

def patternPropertiesPieces (n : Nat) : List PatternProperty → List (List Piece)
  | [] => []
  | p :: ps => p.pieces n :: patternPropertiesPieces n ps

def PatternElement.pieces (n : Nat) : PatternElement → List Piece
  | ⟨target, fallback⟩ =>
    target.pieces n ++ exprPieces? [.space, .sym "=", .space] n Rank.assign fallback

def patternSlotPieces (n : Nat) : Option PatternElement → List Piece
  | none => []
  | some e => e.pieces n

def patternSlotsPieces (n : Nat) : List (Option PatternElement) → List (List Piece)
  | [] => []
  | e :: es => patternSlotPieces n e :: patternSlotsPieces n es

def Param.pieces (n : Nat) : Param → List Piece
  | ⟨pattern, fallback, isRest⟩ =>
    (if isRest then [.sym "..."] else []) ++ pattern.pieces n
      ++ exprPieces? [.space, .sym "=", .space] n Rank.assign fallback

def paramsPieces (n : Nat) : List Param → List (List Piece)
  | [] => []
  | p :: ps => p.pieces n :: paramsPieces n ps

def Func.pieces (n : Nat) : Func → List Piece
  | ⟨name, params, body, isAsync, isGenerator⟩ =>
    spacedIf isAsync "async" ++ .sym "function" :: (if isGenerator then [.sym "*"] else [])
      ++ .space :: identPieces? name ++ enclosed "(" ")" (commaSeparated (paramsPieces n params))
      ++ .space :: braced n (stmtLines (n + 1) body)

/-- A function in method form, its key in place of a name. -/
def Func.methodPieces (n : Nat) (kind : MethodKind) (key : List Piece) : Func → List Piece
  | ⟨_, params, body, isAsync, isGenerator⟩ =>
    kind.pieces ++ spacedIf isAsync "async" ++ (if isGenerator then [.sym "*"] else [])
      ++ (if kind == .constructor then [.name "constructor"] else key)
      ++ enclosed "(" ")" (commaSeparated (paramsPieces n params))
      ++ .space :: braced n (stmtLines (n + 1) body)

def ArrowBody.pieces (n : Nat) : ArrowBody → List Piece
  | .block body => braced n (stmtLines (n + 1) body)
  | .expr e => parenthesized (e.isObject || e.rank < Rank.assign) (e.pieces n)

def Class.pieces (n : Nat) : Class → List Piece
  | ⟨name, base, members⟩ =>
    .sym "class" :: (name.toList.flatMap fun x => [.space, .ident x])
      ++ exprPieces? [.space, .sym "extends", .space] n Rank.call base
      ++ .space :: braced n (membersPieces (n + 1) members)

def ClassMember.pieces (n : Nat) : ClassMember → List Piece
  | .method key kind isStatic f =>
    spacedIf isStatic "static" ++ f.methodPieces n kind (key.pieces n)
  | .field key isStatic value =>
    spacedIf isStatic "static" ++ key.pieces n
      ++ exprPieces? [.space, .sym "=", .space] n Rank.assign value ++ [.sym ";"]
  | .staticBlock body => .sym "static" :: .space :: braced n (stmtLines (n + 1) body)

def membersPieces (n : Nat) : List ClassMember → List (List Piece)
  | [] => []
  | m :: ms => m.pieces n :: membersPieces n ms

def Declarator.pieces (n : Nat) : Declarator → List Piece
  | ⟨target, init⟩ =>
    target.pieces n ++ exprPieces? [.space, .sym "=", .space] n Rank.assign init

def declaratorsPieces (n : Nat) : List Declarator → List (List Piece)
  | [] => []
  | d :: ds => d.pieces n :: declaratorsPieces n ds

def VarList.pieces (n : Nat) : VarList → List Piece
  | ⟨kind, declarators⟩ =>
    .sym kind.text :: .space :: commaSeparated (declaratorsPieces n declarators)

def ForInit.pieces (n : Nat) : ForInit → List Piece
  | .absent => []
  | .var list => list.pieces n
  | .expr e => e.pieces n

def ForHead.pieces (n : Nat) : ForHead → List Piece
  | .var list => list.pieces n
  | .pattern p => p.pieces n

def Catch.pieces (n : Nat) : Catch → List Piece
  | ⟨none, body⟩ => .sym "catch" :: .space :: braced n (stmtLines (n + 1) body)
  | ⟨some param, body⟩ =>
    .sym "catch" :: .space :: enclosed "(" ")" (param.pieces n)
      ++ .space :: braced n (stmtLines (n + 1) body)

def catchPieces? (n : Nat) : Option Catch → List Piece
  | none => []
  | some c => .space :: c.pieces n

def finallyPieces? (n : Nat) : Option (List Stmt) → List Piece
  | none => []
  | some body => .space :: .sym "finally" :: .space :: braced n (stmtLines (n + 1) body)

/-- A branch and its statements, each on a line of its own. -/
def Case.pieces (n : Nat) : Case → List Piece
  | ⟨none, body⟩ => .sym "default" :: .sym ":" :: (stmtLines (n + 1) body).flatMap (.line (n + 1) :: ·)
  | ⟨some test, body⟩ =>
    .sym "case" :: .space :: test.pieces n ++ .sym ":" ::
      (stmtLines (n + 1) body).flatMap (.line (n + 1) :: ·)

def casesPieces (n : Nat) : List Case → List (List Piece)
  | [] => []
  | c :: cs => c.pieces n :: casesPieces n cs

/-- The statements of a body, one line each; those without a runtime form print nothing. -/
def stmtLines (n : Nat) : List Stmt → List (List Piece)
  | [] => []
  | s :: ss => if s.isAmbient then stmtLines n ss else s.pieces n :: stmtLines n ss

def Stmt.pieces (n : Nat) : Stmt → List Piece
  | .expr e =>
    let pieces := e.pieces n
    parenthesized (startsAmbiguously pieces) pieces ++ [.sym ";"]
  | .var modifiers list => modifiers.pieces ++ list.pieces n ++ [.sym ";"]
  | .function modifiers f => modifiers.pieces ++ f.pieces n
  | .classDecl modifiers c => modifiers.pieces ++ c.pieces n
  | .importFrom _ clause specifier isTypeOnly =>
    .sym "import" :: .space :: spacedIf isTypeOnly "type"
      ++ (clause.toList.flatMap fun c => c.pieces ++ [.space, .sym "from", .space])
      ++ specifier.pieces n ++ [.sym ";"]
  | .importEquals _ isExported name kind value =>
    spacedIf isExported "export" ++ .sym "import" :: .space :: .ident name :: .space ::
      .sym "=" :: .space ::
      (match kind with
        | .require => .name "require" :: enclosed "(" ")" (value.pieces n)
        | .entity => value.pieces n) ++ [.sym ";"]
  | .exportFrom _ clause specifier isTypeOnly =>
    .sym "export" :: .space :: spacedIf isTypeOnly "type" ++ exportClausePieces clause
      ++ exprPieces? [.space, .sym "from", .space] n Rank.sequence specifier ++ [.sym ";"]
  | .exportValue _ form value =>
    .sym "export" :: .space ::
      (match form with
        | .equals => .sym "="
        | .default => .sym "default") :: .space ::
      parenthesized (value.rank < Rank.assign) (value.pieces n) ++ [.sym ";"]
  | .ambient _ _ => []
  | .block body =>
    if body.all Stmt.isAmbient then [.sym "\x7b", .space, .sym "\x7d"]
    else braced n (stmtLines (n + 1) body)
  | .ifThen test yes =>
    .sym "if" :: .space :: enclosed "(" ")" (test.pieces n) ++ .space :: yes.pieces n
  | .ifElse test yes no =>
    .sym "if" :: .space :: enclosed "(" ")" (test.pieces n) ++ .space :: yes.pieces n
      ++ gapAfter n yes :: .sym "else" :: .space :: no.pieces n
  | .forLoop init test update body =>
    .sym "for" :: .space ::
      enclosed "(" ")"
        (init.pieces n ++ .sym ";" :: exprPieces? [.space] n Rank.sequence test
          ++ .sym ";" :: exprPieces? [.space] n Rank.sequence update)
      ++ .space :: body.pieces n
  | .forIn head object body =>
    .sym "for" :: .space ::
      enclosed "(" ")" (head.pieces n ++ .space :: .sym "in" :: .space :: object.pieces n)
      ++ .space :: body.pieces n
  | .forOf head iterable body isAwait =>
    .sym "for" :: .space :: spacedIf isAwait "await"
      ++ enclosed "(" ")"
        (head.pieces n ++ .space :: .sym "of" :: .space ::
          parenthesized (iterable.rank < Rank.assign) (iterable.pieces n))
      ++ .space :: body.pieces n
  | .whileLoop test body =>
    .sym "while" :: .space :: enclosed "(" ")" (test.pieces n) ++ .space :: body.pieces n
  | .doWhile body test =>
    .sym "do" :: .space :: body.pieces n
      ++ gapAfter n body :: .sym "while" :: .space :: enclosed "(" ")" (test.pieces n)
      ++ [.sym ";"]
  | .tryCatch body handler finalizer =>
    .sym "try" :: .space :: braced n (stmtLines (n + 1) body)
      ++ catchPieces? n handler ++ finallyPieces? n finalizer
  | .switch subject cases =>
    .sym "switch" :: .space :: enclosed "(" ")" (subject.pieces n)
      ++ .space :: braced n (casesPieces (n + 1) cases)
  | .labeled label body => .name label :: .sym ":" :: .space :: body.pieces n
  | .withObject object body =>
    .sym "with" :: .space :: enclosed "(" ")" (object.pieces n) ++ .space :: body.pieces n
  | .ret arg => .sym "return" :: exprPieces? [.space] n Rank.sequence arg ++ [.sym ";"]
  | .throw arg => .sym "throw" :: .space :: arg.pieces n ++ [.sym ";"]
  | .breakTo label => jumpPieces "break" label
  | .continueTo label => jumpPieces "continue" label
  | .empty => [.sym ";"]
  | .debugger => [.sym "debugger", .sym ";"]

end

/-! ## Slots -/

/-- What stands without parentheses has the rank that its slot asks for. -/
theorem rank_of_bare {rank min : Rank} (h : decide (rank < min) = false) : min ≤ rank :=
  Nat.not_lt.mp (of_decide_eq_false h)

theorem rank_of_bare_or {clashes : Bool} {rank min : Rank}
    (h : (clashes || decide (rank < min)) = false) : min ≤ rank :=
  rank_of_bare (Bool.or_eq_false_iff.mp h).2

/-- The two operands of a binary operator each ask for a rank of their own. -/
theorem Expr.pieces_binary (n : Nat) (op : BinaryOp) (left right : Expr) :
    (Expr.binary op left right).pieces n =
      parenthesized (left.clashesWith op || (op == .exp && left.isUnaryLike)
          || left.rank < if op.isRightAssociative then op.precedence + 1 else op.precedence)
        (left.pieces n)
      ++ .space :: .sym op.text :: .space :: parenthesized (right.clashesWith op
          || right.rank < if op.isRightAssociative then op.precedence else op.precedence + 1)
        (right.pieces n) := by
  cases op <;> rfl

/-! ## Text -/

def Expr.print (e : Expr) : String := Piece.render (e.pieces 0)

def Stmt.print (s : Stmt) : String := Piece.render (s.pieces 0)

/-- One line per statement, each with its line end. -/
def printStmts (stmts : List Stmt) : String :=
  Piece.render ((stmtLines 0 stmts).flatMap (· ++ [.line 0]))

def SourceFile.print (file : SourceFile) : String := printStmts file.statements

end RegisterForm
