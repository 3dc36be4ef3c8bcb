import RegisterForm.Proofs.Run.Value
import RegisterForm.Scope.Declaration
/-!
# Runs

A machine that runs the statements of arithmetic, those of a module and those that it is lowered to
alike. It keeps the variables of the open blocks and records what is written and published; the
outermost variables are read off this record. A lexical variable is undefined until it is written,
and constants are written like any other: a program that the language stops there goes on.

A loop runs for a given number of rounds at most, and past them nothing more is run. Every start of
a run is thus one within some number of rounds.
-/
namespace RegisterForm

inductive Event where
  /-- A write to a variable with so many blocks around it. -/
  | wrote (level : Nat) (name : String) (value : Value)
  /-- A call of the exporter. -/
  | published (name : String) (value : Value)
  deriving DecidableEq, Repr

def Event.isWrite : Event → Bool
  | wrote .. => true
  | published .. => false

/-- The value last written to an outermost variable. -/
def currentValue (x : String) (events : List Event) : Value :=
  (events.findSome? fun
    | .wrote 0 y v => if y = x then some v else none
    | _ => none).getD .undefined

/-- The variables that one block declares. -/
abbrev BlockVars := List (String × Value)

structure Memory where
  /-- The open blocks, the innermost first. -/
  blocks : List BlockVars := []
  /-- What happened, the newest first. -/
  events : List Event := []

def Memory.writes (m : Memory) : List Event := m.events.filter Event.isWrite

/-- What a program is run in. -/
structure Linkage where
  /-- The variables around all blocks. -/
  outer : List String
  /-- What a name that stands for something of another module gives: its value, or a property of its
  value. Other modules may change with each write. -/
  foreign : List Event → String → Option String → Option Value
  /-- The parameter that publishes a value under a name. -/
  exporter : Option String := none

/-- A step of the machine; where the language of arithmetic does not reach, it fails. -/
abbrev Run := StateT Memory Option

/-! ## Variables -/

namespace Memory

def find? (m : Memory) (x : String) : Option Value := m.blocks.findSome? (·.lookup x)

/-- Writes to the innermost block that declares the name, and tells its level. -/
def assign? (x : String) (v : Value) : List BlockVars → Option (Nat × List BlockVars)
  | [] => none
  | block :: blocks =>
    if (block.lookup x).isSome then
      some (blocks.length + 1, (block.map fun p => if p.1 = x then (x, v) else p) :: blocks)
    else (assign? x v blocks).map fun r => (r.1, block :: r.2)

end Memory

namespace Linkage

def read (l : Linkage) (x : String) : Run Value := fun m =>
  match m.find? x with
  | some v => some (v, m)
  | none =>
    match l.foreign m.writes x none with
    | some v => some (v, m)
    | none => if x ∈ l.outer then some (currentValue x m.events, m) else none

def write (l : Linkage) (x : String) (v : Value) : Run Unit := fun m =>
  match Memory.assign? x v m.blocks with
  | some (level, blocks) => some ((), ⟨blocks, .wrote level x v :: m.events⟩)
  | none =>
    if x ∈ l.outer then some ((), { m with events := .wrote 0 x v :: m.events }) else none

/-- Reads another module, or a property of it. -/
def readForeign (l : Linkage) (holder : String) (property : Option String) : Run Value := fun m =>
  (l.foreign m.writes holder property).map (·, m)

end Linkage

namespace Run

def publish (name : String) (v : Value) : Run Unit :=
  modify fun m => { m with events := .published name v :: m.events }

/-- Runs a step in a block of its own with the given variables. -/
def inBlock {α : Type} (names : List String) (step : Run α) : Run α := do
  modify fun m => { m with blocks := names.map (·, .undefined) :: m.blocks }
  let a ← step
  modify fun m => { m with blocks := m.blocks.tail }
  return a

def inBlockIf {α : Type} (wanted : Bool) (names : List String) (step : Run α) : Run α :=
  if wanted then inBlock names step else step

/-- An assignment, given how its target is read, its value found and its target written. -/
def assign (op : AssignOp) (read value : Run Value) (write : Value → Run Unit) : Run Value :=
  match op.binary? with
  | some binary => do
    let old ← read
    let v ← value
    let v ← StateT.lift (binary.compute? old v)
    write v
    return v
  | none =>
    if op = .plain then do
      let v ← value
      write v
      return v
    else StateT.lift none

def update (op : UpdateOp) (isPrefix : Bool) (read : Run Value) (write : Value → Run Unit) :
    Run Value := do
  let old ← read
  write (op.apply old)
  return if isPrefix then op.apply old else old.number

/-- Tells whether the loop came to its end within the given rounds. -/
def repeatWhile (test : Run Value) (body : Run Bool) (after : Run Unit) : Nat → Run Bool
  | 0 => return false
  | rounds + 1 => do
    if (← test).isTruthy then
      if ← body then
        after
        repeatWhile test body after rounds
      else return false
    else return true

end Run

/-! ## Expressions -/

/-- The name of a made-up identifier. Such a name is not looked up in the blocks: they never declare
it, as it is fresh. -/
def Expr.madeUp? : Expr → Option String
  | .ident x => if x.id.isSynthetic then some x.name else none
  | _ => none

mutual

def Expr.eval (l : Linkage) : Expr → Run Value
  | .ident x => if x.id.isSynthetic then l.readForeign x.name none else l.read x.name
  | .literal value => StateT.lift value.value?
  | .binary op left right => do
    let a ← left.eval l
    let b ← right.eval l
    StateT.lift (op.compute? a b)
  | .assign op target value =>
    match target.ident? with
    | none => StateT.lift none
    | some x => Run.assign op (l.read x.name) (value.eval l) (l.write x.name)
  | .update op isPrefix arg =>
    match arg.skipParens.ident? with
    | none => StateT.lift none
    | some x => Run.update op isPrefix (l.read x.name) (l.write x.name)
  | .conditional test yes no => do
    if (← test.eval l).isTruthy then yes.eval l else no.eval l
  | .sequence exprs => evalSequence l exprs
  | .paren inner => inner.eval l
  | .call callee args false =>
    if callee.madeUp?.isSome ∧ callee.madeUp? = l.exporter then evalPublished l args
    else StateT.lift none
  | .member owner name false =>
    match owner.madeUp? with
    | none => StateT.lift none
    | some holder => l.readForeign holder (some name)
  | .index owner key false =>
    match owner.madeUp?, key.string? with
    | some holder, some name => l.readForeign holder (some name)
    | _, _ => StateT.lift none
  | _ => StateT.lift none

/-- The value of a sequence is that of its last expression. -/
def evalSequence (l : Linkage) : List Expr → Run Value
  | [] => StateT.lift none
  | [e] => e.eval l
  | e :: es => do
    let _ ← e.eval l
    evalSequence l es

/-- A name and a value, which is the value of the call. -/
def evalPublished (l : Linkage) : List Expr → Run Value
  | [name, value] =>
    match name.string? with
    | none => StateT.lift none
    | some name => do
      let v ← value.eval l
      Run.publish name v
      return v
  | _ => StateT.lift none

end

section eval
variable (l : Linkage)

theorem Expr.eval_binary (op : BinaryOp) (left right : Expr) :
    (Expr.binary op left right).eval l = (do
      let a ← left.eval l
      let b ← right.eval l
      StateT.lift (op.compute? a b)) := rfl

theorem Expr.eval_assign (op : AssignOp) (target : Pattern) (value : Expr) :
    (Expr.assign op target value).eval l = (match target.ident? with
      | none => StateT.lift none
      | some x => Run.assign op (l.read x.name) (value.eval l) (l.write x.name)) := rfl

theorem Expr.eval_update (op : UpdateOp) (isPrefix : Bool) (arg : Expr) :
    (Expr.update op isPrefix arg).eval l = (match arg.skipParens.ident? with
      | none => StateT.lift none
      | some x => Run.update op isPrefix (l.read x.name) (l.write x.name)) := rfl

theorem Expr.eval_member (owner : Expr) (name : String) :
    (Expr.member owner name false).eval l = (match owner.madeUp? with
      | none => StateT.lift none
      | some holder => l.readForeign holder (some name)) := rfl

theorem Expr.eval_index (owner key : Expr) :
    (Expr.index owner key false).eval l = (match owner.madeUp?, key.string? with
      | some holder, some name => l.readForeign holder (some name)
      | _, _ => StateT.lift none) := rfl

end eval

/-! ## Statements -/

/-- Only declarations of one name with a value are run. -/
def Declarator.exec (l : Linkage) (d : Declarator) : Run Unit :=
  match d.target.ident?, d.init with
  | some x, some init => do
    let v ← init.eval l
    l.write x.name v
  | _, _ => StateT.lift none

def execDeclarators (l : Linkage) : List Declarator → Run Unit
  | [] => return
  | d :: ds => do
    d.exec l
    execDeclarators l ds

def ForInit.exec (l : Linkage) : ForInit → Run Unit
  | .absent => return
  | .var list => execDeclarators l list.declarators
  | .expr e => do
    let _ ← e.eval l

/-- Without a test a loop goes on. -/
def evalTest (l : Linkage) : Option Expr → Run Value
  | none => return .bool true
  | some e => e.eval l

def execUpdate (l : Linkage) : Option Expr → Run Unit
  | none => return
  | some e => do
    let _ ← e.eval l

/-- The names that a list of statements declares in the block around it. -/
def lexicalNames (stmts : List Stmt) : List String :=
  (blockLexicalBindings false stmts).map (·.ident.name)

def ForInit.lexicalNames (init : ForInit) : List String :=
  init.lexicalBindings.map (·.ident.name)

mutual

/-- Tells whether the statement came to its end. -/
def Stmt.exec (l : Linkage) (rounds : Nat) : Stmt → Run Bool
  | .expr e => do
    let _ ← e.eval l
    return true
  | .var _ list => do
    execDeclarators l list.declarators
    return true
  | .block body => Run.inBlock (lexicalNames body) (execStmts l rounds body)
  | .ifThen test yes => do
    if (← test.eval l).isTruthy then yes.exec l rounds else return true
  | .ifElse test yes no => do
    if (← test.eval l).isTruthy then yes.exec l rounds else no.exec l rounds
  | .whileLoop test body =>
    Run.repeatWhile (test.eval l) (body.exec l rounds) (return) rounds
  | .forLoop init test update body =>
    Run.inBlockIf init.isLexical init.lexicalNames do
      init.exec l
      Run.repeatWhile (evalTest l test) (body.exec l rounds) (execUpdate l update) rounds
  | .importFrom .. | .importEquals _ _ _ .require _ | .exportFrom _ _ none _ | .empty => return true
  | _ => StateT.lift none

def execStmts (l : Linkage) (rounds : Nat) : List Stmt → Run Bool
  | [] => return true
  | s :: ss => do
    if ← s.exec l rounds then execStmts l rounds ss else return false

end

theorem Stmt.exec_block (l : Linkage) (rounds : Nat) (body : List Stmt) :
    (Stmt.block body).exec l rounds =
      Run.inBlock (lexicalNames body) (execStmts l rounds body) := rfl

theorem Stmt.exec_forLoop (l : Linkage) (rounds : Nat) (init : ForInit) (test update : Option Expr)
    (body : Stmt) : (Stmt.forLoop init test update body).exec l rounds =
      Run.inBlockIf init.isLexical init.lexicalNames (do
        init.exec l
        Run.repeatWhile (evalTest l test) (body.exec l rounds) (execUpdate l update) rounds) := rfl

end RegisterForm
