import RegisterForm.Tree.Construct
/-!
# What expressions compute

Values, stores, and an evaluator for the expressions that patterns are taken apart into. What
objects do, and all expressions besides, is left to a world: it says what a property is read as,
what a call does, and so on, and each of these may run any code of the program.
-/
namespace RegisterForm.Dynamic

/-! ## Values -/

inductive Value where
  | undefined
  | null
  | boolean (b : Bool)
  /-- A number, by the text that stands for it in a string. -/
  | number (text : String)
  | string (text : String)
  | symbol (id : Nat)
  | object (id : Nat)
  deriving DecidableEq

namespace Value

def isTruthy : Value → Bool
  | undefined | null => false
  | boolean b => b
  | number text => text != "0" && text != "NaN"
  | string text => text != ""
  | symbol _ | object _ => true

def strictEquals : Value → Value → Bool
  | number a, number b => a == b && a != "NaN"
  | a, b => a == b

theorem strictEquals_undefined (v : Value) : v.strictEquals undefined = (v == undefined) := by
  cases v <;> rfl

/-- The text that a primitive value has in a string; a symbol has none. -/
def text? : Value → Option String
  | undefined => some "undefined"
  | null => some "null"
  | boolean b => some (if b then "true" else "false")
  | number text | string text => some text
  | symbol _ | object _ => none

def isString : Value → Bool
  | string _ => true
  | _ => false

end Value

/-- What an expression stands for before its value is asked for. -/
inductive Referent where
  | named (name : String)
  | property (owner key : Value)
  | value (v : Value)

/-- The value that a function is called on. -/
def Referent.receiver : Referent → Value
  | .property owner _ => owner
  | _ => .undefined

/-! ## Computations -/

/-- The variables, and the rest of the program's state. -/
structure Store (σ : Type) where
  vars : String → Option Value
  rest : σ

def Store.set {σ : Type} (name : String) (v : Value) (store : Store σ) : Store σ :=
  { store with vars := fun x => if x = name then some v else store.vars x }

namespace Store
variable {σ : Type} {ts : List String} {x : String}

/-- The store with other values in some variables. -/
def holding (ts : List String) (f : String → Option Value) (store : Store σ) : Store σ :=
  { store with vars := fun x => if x ∈ ts then f x else store.vars x }

theorem vars_holding_of_mem (h : x ∈ ts) (f : String → Option Value) (store : Store σ) :
    (store.holding ts f).vars x = f x := if_pos h

theorem vars_holding_of_not_mem (h : x ∉ ts) (f : String → Option Value) (store : Store σ) :
    (store.holding ts f).vars x = store.vars x := if_neg h

end Store

/-- A computation that changes the store and may throw a value. -/
abbrev Run (σ α : Type) : Type := ExceptT Value (StateM (Store σ)) α

/-- What a computation gives, and the store that it leaves. -/
def Run.outcome {σ α : Type} (x : Run σ α) (store : Store σ) : Except Value α × Store σ :=
  (ExceptT.run x).run store

namespace Run
variable {σ α β : Type} {x : Run σ α} {store store' : Store σ}

@[simp] theorem outcome_pure (a : α) (store : Store σ) :
    (pure a : Run σ α).outcome store = (.ok a, store) := rfl

@[simp] theorem outcome_throw (e : Value) (store : Store σ) :
    (throw e : Run σ α).outcome store = (.error e, store) := rfl

@[simp] theorem outcome_get (store : Store σ) :
    (get : Run σ (Store σ)).outcome store = (.ok store, store) := rfl

@[simp] theorem outcome_modify (change : Store σ → Store σ) (store : Store σ) :
    (modify change : Run σ Unit).outcome store = (.ok (), change store) := rfl

theorem outcome_bind_of_ok {a : α} (h : x.outcome store = (.ok a, store')) (f : α → Run σ β) :
    (x >>= f).outcome store = (f a).outcome store' := by
  simp only [outcome, ExceptT.run_bind, StateT.run_bind] at h ⊢
  rw [h]
  rfl

theorem outcome_bind_of_error {e : Value} (h : x.outcome store = (.error e, store'))
    (f : α → Run σ β) : (x >>= f).outcome store = (.error e, store') := by
  simp only [outcome, ExceptT.run_bind, StateT.run_bind] at h ⊢
  rw [h]
  rfl

theorem ext {x y : Run σ α} (h : ∀ store, x.outcome store = y.outcome store) : x = y := funext h

end Run

/-! ## Worlds -/

/-- What a program runs in. -/
structure World (σ : Type) where
  /-- What is thrown where a variable is read that has no value. -/
  referenceError : Value
  /-- What is thrown where something is assigned to that is no variable and no property. -/
  targetError : Value
  /-- The number that a literal stands for, by its text. -/
  numberText : String → String
  isCallable : Nat → Bool
  getProperty (owner key : Value) : Run σ Value
  putProperty (owner key value : Value) : Run σ Unit
  call (callee receiver : Value) (args : List Value) : Run σ Value
  array (elements : List Value) : Run σ Value
  unary (op : UnaryOp) (arg : Value) : Run σ Value
  /-- Operators that are not computed here, and the sums that call conversions. -/
  binary (op : BinaryOp) (left right : Value) : Run σ Value
  /-- All other expressions. -/
  other (e : Expr) : Run σ Value

variable {σ : Type}

def read (w : World σ) (name : String) : Run σ Value := do
  ((← get).vars name).elim (throw w.referenceError) pure

def write (name : String) (v : Value) : Run σ Unit := modify (·.set name v)

theorem outcome_read_of_some {w : World σ} {name : String} {v : Value} {store : Store σ}
    (h : store.vars name = some v) : (read w name).outcome store = (.ok v, store) := by
  show (((store.vars name).elim (throw w.referenceError) pure : Run σ Value)).outcome store = _
  rw [h]
  rfl

theorem outcome_read_of_none {w : World σ} {name : String} {store : Store σ}
    (h : store.vars name = none) :
    (read w name).outcome store = (.error w.referenceError, store) := by
  show (((store.vars name).elim (throw w.referenceError) pure : Run σ Value)).outcome store = _
  rw [h]
  rfl

@[simp] theorem outcome_write (name : String) (v : Value) (store : Store σ) :
    (write name v).outcome store = (.ok (), store.set name v) := rfl

namespace World
variable (w : World σ)

def get : Referent → Run σ Value
  | .named name => read w name
  | .property owner key => w.getProperty owner key
  | .value v => return v

def put (v : Value) : Referent → Run σ Unit
  | .named name => write name v
  | .property owner key => w.putProperty owner key v
  | .value _ => throw w.targetError

def typeText : Value → String
  | .undefined => "undefined"
  | .null => "object"
  | .boolean _ => "boolean"
  | .number _ => "number"
  | .string _ => "string"
  | .symbol _ => "symbol"
  | .object id => if w.isCallable id then "function" else "object"

/-- The type of a variable without a value can be asked for. -/
def typeOf (r : Referent) : Run σ Value := do
  match r with
  | .named name => return .string (((← MonadState.get).vars name).elim "undefined" w.typeText)
  | r => return .string (w.typeText (← w.get r))

def applyUnary (op : UnaryOp) (r : Referent) : Run σ Value := do
  match op with
  | .typeOf => w.typeOf r
  | .void => do
    let _ ← w.get r
    return .undefined
  | .not => return .boolean !(← w.get r).isTruthy
  | op => do w.unary op (← w.get r)

/-- Strings are joined to what has a text; other sums are left to the world. -/
def add (left right : Value) : Run σ Value :=
  match left.text?, right.text? with
  | some a, some b =>
    if left.isString || right.isString then return .string (a ++ b) else w.binary .add left right
  | _, _ => w.binary .add left right

def applyBinary (op : BinaryOp) (left right : Value) : Run σ Value :=
  match op with
  | .strictEq => return .boolean (left.strictEquals right)
  | .add => w.add left right
  | op => w.binary op left right

end World

/-! ## Expressions -/

def isSpread : Expr → Bool
  | .spread _ => true
  | _ => false

/-- Whether an element of an array is one value. -/
def isSingle : Option Expr → Bool
  | some e => !isSpread e
  | none => false

mutual

/-- What an expression stands for. Patterns that stay patterns, optional chains, spread arguments
and all that has to do with functions and classes is left to the world. -/
def refer (w : World σ) (e : Expr) : Run σ Referent :=
  match e with
  | .ident x => return .named x.name
  | .literal (.string text) => return .value (.string text)
  | .literal (.number source) => return .value (.number (w.numberText source))
  | .literal (.boolean b) => return .value (.boolean b)
  | .literal .null => return .value .null
  | .member owner name false => return .property (← w.get (← refer w owner)) (.string name)
  | .index owner key false =>
    return .property (← w.get (← refer w owner)) (← w.get (← refer w key))
  | .paren inner => refer w inner
  | .unary op arg => do
    if op = .delete then return .value (← w.other (.unary op arg))
    else return .value (← w.applyUnary op (← refer w arg))
  | .binary op left right => do
    let v ← w.get (← refer w left)
    match op with
    | .and => if v.isTruthy then return .value (← w.get (← refer w right)) else return .value v
    | .or => if v.isTruthy then return .value v else return .value (← w.get (← refer w right))
    | .nullish =>
      if v = .undefined || v = .null then return .value (← w.get (← refer w right))
      else return .value v
    | op => return .value (← w.applyBinary op v (← w.get (← refer w right)))
  | .conditional test yes no => do
    if (← w.get (← refer w test)).isTruthy then return .value (← w.get (← refer w yes))
    else return .value (← w.get (← refer w no))
  | .assign .plain (.ident x) value => do
    let v ← w.get (← refer w value)
    write x.name v
    return .value v
  | .assign .plain (.expr target) value => do
    let r ← refer w target
    let v ← w.get (← refer w value)
    w.put v r
    return .value v
  | .call callee args false => do
    if args.any isSpread then return .value (← w.other (.call callee args false))
    else
      let r ← refer w callee
      let f ← w.get r
      return .value (← w.call f r.receiver (← evalEach w args))
  | .array elements => do
    if elements.all isSingle then return .value (← w.array (← evalSlots w elements))
    else return .value (← w.other (.array elements))
  | .sequence exprs => return .value (← evalLast w .undefined exprs)
  | e => return .value (← w.other e)

def evalEach (w : World σ) : List Expr → Run σ (List Value)
  | [] => return []
  | e :: es => return (← w.get (← refer w e)) :: (← evalEach w es)

def evalExpr? (w : World σ) : Option Expr → Run σ Value
  | none => return .undefined
  | some e => do w.get (← refer w e)

def evalSlots (w : World σ) : List (Option Expr) → Run σ (List Value)
  | [] => return []
  | e :: es => return (← evalExpr? w e) :: (← evalSlots w es)

/-- The value of the last expression, all of them evaluated in turn. -/
def evalLast (w : World σ) (v : Value) : List Expr → Run σ Value
  | [] => return v
  | e :: es => do evalLast w (← w.get (← refer w e)) es

end

def eval (w : World σ) (e : Expr) : Run σ Value := do w.get (← refer w e)

/-! What the forms of expressions stand for that patterns are taken apart into. -/

section
variable (w : World σ)

theorem refer_ident (x : Ident) : refer w (.ident x) = pure (.named x.name) := rfl

theorem refer_ofString (text : String) : refer w (.ofString text) = pure (.value (.string text)) := rfl

theorem refer_ofNumber (source : String) :
    refer w (.ofNumber source) = pure (.value (.number (w.numberText source))) := rfl

theorem refer_dot (owner : Expr) (name : String) :
    refer w (owner.dot name) = (do return .property (← eval w owner) (.string name)) := by
  rw [eval, bind_assoc]
  rfl

theorem refer_lookup (owner key : Expr) :
    refer w (owner.lookup key) = (do return .property (← eval w owner) (← eval w key)) := by
  simp only [eval, bind_assoc]
  rfl

theorem refer_typeOf (arg : Expr) : refer w (.unary .typeOf arg) = (do
    let r ← refer w arg
    return .value (← w.typeOf r)) := rfl

theorem refer_not (arg : Expr) : refer w arg.negate = (do
    let r ← refer w arg
    return .value (← w.applyUnary .not r)) := rfl

theorem refer_and (left right : Expr) : refer w (.binary .and left right) = (do
    let v ← eval w left
    if v.isTruthy then return .value (← eval w right) else return .value v) := by
  simp only [eval, bind_assoc]
  rfl

/-- An operator that is left to the world. -/
theorem refer_binary {op : BinaryOp} (h : op ∉ [.and, .or, .nullish, .strictEq, .add])
    (left right : Expr) : refer w (.binary op left right) = (do
      let v ← eval w left
      return .value (← w.binary op v (← eval w right))) := by
  simp only [eval, bind_assoc]
  cases op <;> first | exact absurd (by decide) h | rfl

theorem refer_object (properties : List Property) : refer w (.object properties) = (do
    return .value (← w.other (.object properties))) := rfl

theorem refer_strictEq (left right : Expr) : refer w (.binary .strictEq left right) = (do
    let v ← eval w left
    return .value (.boolean (v.strictEquals (← eval w right)))) := by
  simp only [eval, bind_assoc]
  rfl

theorem refer_add (left right : Expr) : refer w (.binary .add left right) = (do
    let v ← eval w left
    return .value (← w.add v (← eval w right))) := by
  simp only [eval, bind_assoc]
  rfl

theorem refer_conditional (test yes no : Expr) : refer w (.conditional test yes no) = (do
    if (← eval w test).isTruthy then return .value (← eval w yes)
    else return .value (← eval w no)) := by
  simp only [eval, bind_assoc]
  rfl

theorem refer_assignName (name : String) (value : Expr) :
    refer w (.assignName name value) = (do
      let v ← eval w value
      write name v
      return .value v) := by
  rw [eval, bind_assoc]
  rfl

theorem refer_assignTo_expr (target value : Expr) :
    refer w (.assignTo (.expr target) value) = (do
      let r ← refer w target
      let v ← eval w value
      w.put v r
      return .value v) := by
  simp only [eval, bind_assoc]
  rfl

theorem refer_apply (callee : Expr) {args : List Expr} (h : args.any isSpread = false) :
    refer w (callee.apply args) = (do
      let r ← refer w callee
      let f ← w.get r
      return .value (← w.call f r.receiver (← evalEach w args))) := by
  show (if args.any isSpread = true then _ else _) = _
  exact if_neg (by rw [h]; exact Bool.false_ne_true)

theorem refer_array {elements : List (Option Expr)} (h : elements.all isSingle = true) :
    refer w (.array elements) = (do return .value (← w.array (← evalSlots w elements))) :=
  if_pos h

theorem evalEach_nil : evalEach w [] = pure [] := rfl

theorem evalEach_cons (e : Expr) (es : List Expr) :
    evalEach w (e :: es) = (do return (← eval w e) :: (← evalEach w es)) := by
  rw [eval, bind_assoc]
  rfl

theorem evalSlots_map_some (es : List Expr) :
    evalSlots w (es.map some) = (es.map (eval w)).mapM id := by
  induction es with
  | nil => rfl
  | cons e es ih =>
    rw [List.map_cons, List.map_cons, List.mapM_cons, ← ih]
    rfl

end

/-- Expressions that are evaluated for their effects. -/
def evalAll (w : World σ) : List Expr → Run σ Unit
  | [] => return
  | e :: es => do
    let _ ← eval w e
    evalAll w es

theorem evalAll_append (w : World σ) (es es' : List Expr) :
    evalAll w (es ++ es') = (do evalAll w es; evalAll w es') := by
  induction es with
  | nil => simp [evalAll]
  | cons e es ih => simp [evalAll, ih]

/-- A list that ends in an expression has the value of that expression. -/
theorem evalLast_append_singleton (w : World σ) (v : Value) (es : List Expr) (e : Expr) :
    evalLast w v (es ++ [e]) = (do evalAll w es; eval w e) := by
  have hcons : ∀ v e' es, evalLast w v (e' :: es) = (do evalLast w (← eval w e') es) := by
    intro v e' es
    rw [eval, bind_assoc]
    rfl
  induction es generalizing v with
  | nil =>
    rw [List.nil_append, hcons, evalAll, pure_bind]
    exact bind_pure _
  | cons e' es ih => simp only [List.cons_append, hcons, ih, evalAll, bind_assoc]

end RegisterForm.Dynamic
