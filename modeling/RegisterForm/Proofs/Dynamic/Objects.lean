import RegisterForm.Proofs.Dynamic.Shells
import RegisterForm.Scope.Declaration
/-!
# Objects

A heap of objects with properties of their own and prototypes, and a world whose expressions read,
write and call these objects. Of the built-in functions it has those that made-up functions call;
what a program might do besides throws.
-/
namespace RegisterForm.Dynamic

/-! ## The heap -/

/-- What stands under a key: a value, or access to what the object inherits from. -/
inductive Content where
  | value (v : Value)
  | prototypeAccess
  deriving DecidableEq

structure Slot where
  key : String
  content : Content
  isEnumerable : Bool := true
  deriving DecidableEq

structure Obj where
  slots : List Slot
  proto : Option Nat

namespace Obj

def content? (o : Obj) (key : String) : Option Content :=
  (o.slots.find? (·.key == key)).map (·.content)

/-- A property of the object's own gets a value; a new one can be seen by loops over keys. -/
def define (o : Obj) (key : String) (v : Value) : Obj :=
  if (o.content? key).isSome then
    { o with slots := o.slots.map fun s => if s.key = key then { s with content := .value v } else s }
  else { o with slots := o.slots ++ [⟨key, .value v, true⟩] }

/-- Only objects can be inherited from; `null` stands for none, and other values do nothing. -/
def inherit (o : Obj) : Value → Obj
  | .object id => { o with proto := some id }
  | .null => { o with proto := none }
  | _ => o

/-- A property of a literal. The key `__proto__` says what the object inherits from. -/
def defineLiteral (o : Obj) (key : String) (v : Value) : Obj :=
  if key = "__proto__" then o.inherit v else o.define key v

/-- The keys that loops see, with their values. -/
def entries (o : Obj) : List (String × Value) :=
  o.slots.filterMap fun s =>
    match s.content with
    | .value v => if s.isEnumerable then some (s.key, v) else none
    | .prototypeAccess => none

end Obj

structure Heap where
  objects : List Obj
  /-- What the exporter was passed, one call after another. -/
  passed : List (List (String × Value)) := []

namespace Heap
variable (h : Heap)

def own? (id : Nat) (key : String) : Option Content := h.objects[id]?.bind (·.content? key)

def proto? (id : Nat) : Option Nat := h.objects[id]?.bind (·.proto)

/-- What an object has under a key, its own before what it inherits. -/
def find? (key : String) : (depth : Nat) → (id : Nat) → Option Content
  | 0, _ => none
  | depth + 1, id =>
    match h.own? id key with
    | some content => some content
    | none => (h.proto? id).bind (find? key depth)

/-- No object inherits from more objects than there are. -/
def lookup (id : Nat) (key : String) : Option Content := h.find? key h.objects.length id

/-- The keys that a loop sees, those of the object before those it inherits. A key that was met
before is not seen again. -/
def keysFrom : (depth : Nat) → (met : List String) → (id : Nat) → List String
  | 0, _, _ => []
  | depth + 1, met, id =>
    let slots := h.objects[id]?.elim [] (·.slots)
    (slots.filter fun s => s.isEnumerable && !met.contains s.key).map (·.key) ++
      (h.proto? id).elim [] (keysFrom depth (met ++ slots.map (·.key)))

def keys (id : Nat) : List String := h.keysFrom h.objects.length [] id

def update (id : Nat) (change : Obj → Obj) : Heap :=
  { h with objects := h.objects.modify id change }

end Heap

/-! ## The world -/

/-- The built-in objects, and the values that are thrown. -/
structure Realm where
  object : Nat
  objectPrototype : Nat
  functionPrototype : Nat
  hasOwnProperty : Nat
  functionCall : Nat
  exporter : Nat
  typeError : Value
  referenceError : Value

namespace Realm
variable (R : Realm)

/-- The object whose properties a value has: its own, or those that all objects share. -/
def holder? : Value → Option Nat
  | .object id => some id
  | .undefined | .null => none
  | _ => some R.objectPrototype

def getProperty (owner key : Value) : Run Heap Value := do
  let h := (← get).rest
  match R.holder? owner, key.text? with
  | some id, some text =>
    match h.lookup id text with
    | some (.value v) => return v
    | some .prototypeAccess => return (h.proto? id).elim .null .object
    | none => return .undefined
  | _, _ => throw R.typeError

/-- A property of the object's own takes the value, unless what it inherits gives access to the
prototype. -/
def putProperty (owner key value : Value) : Run Heap Unit := do
  let h := (← get).rest
  match owner, key.text? with
  | .object id, some text =>
    let change := fun o : Obj =>
      if h.lookup id text = some .prototypeAccess then o.inherit value else o.define text value
    modify fun store => { store with rest := store.rest.update id change }
  | _, _ => throw R.typeError

/-- A built-in function called on a value. -/
def native (callee receiver : Value) (args : List Value) : Run Heap Value := do
  let h := (← get).rest
  if callee = .object R.hasOwnProperty then
    match receiver, (args.headD .undefined).text? with
    | .object id, some text => return .boolean (h.own? id text).isSome
    | _, _ => throw R.typeError
  else if callee = .object R.exporter then
    match args with
    | [.object id] =>
      let given := h.objects[id]?.elim [] (·.entries)
      modify fun store => { store with rest := { store.rest with passed := store.rest.passed ++ [given] } }
      return .object id
    | _ => throw R.typeError
  else throw R.typeError

/-- What has no `call` of its own is called with the value to call it on for a first argument. -/
def call (callee receiver : Value) (args : List Value) : Run Heap Value :=
  if callee = .object R.functionCall then R.native receiver (args.headD .undefined) args.tail
  else R.native callee receiver args

def literal? : Expr → Option Value
  | .literal (.string text) => some (.string text)
  | .literal (.boolean b) => some (.boolean b)
  | .literal .null => some .null
  | _ => none

def entry? : Property → Option (String × Value)
  | .keyed (.name key) e | .keyed (.string key) e => (literal? e).map (key, ·)
  | _ => none

/-- An object with some properties, the keys as a literal has them. -/
def objectOf (entries : List (String × Value)) : Obj :=
  entries.foldl (fun o entry => o.defineLiteral entry.1 entry.2) ⟨[], some R.objectPrototype⟩

def allocate (o : Obj) : Run Heap Value := do
  let h := (← get).rest
  modify fun store => { store with rest := { store.rest with objects := store.rest.objects ++ [o] } }
  return .object h.objects.length

/-- The world of the heap. -/
def world : World Heap where
  referenceError := R.referenceError
  targetError := R.typeError
  numberText := id
  isCallable id := id = R.hasOwnProperty ∨ id = R.functionCall ∨ id = R.exporter
  getProperty := R.getProperty
  putProperty := R.putProperty
  call := R.call
  array _ := throw R.typeError
  unary _ _ := throw R.typeError
  binary op left right :=
    match op with
    | .strictNe => return .boolean !(left.strictEquals right)
    | _ => throw R.typeError
  other e :=
    match e with
    | .object properties =>
      match properties.mapM entry? with
      | some entries => allocate (R.objectOf entries)
      | none => throw R.typeError
    | _ => throw R.typeError

end Realm

/-! ## Statements -/

section
variable {σ : Type} (w : World σ) (keys : Value → Run σ (List String))

def declare (d : Declarator) : Run σ Unit :=
  match d with
  | ⟨.ident x, some init⟩ => do write x.name (← eval w init)
  | ⟨.ident _, none⟩ => return
  | _ => throw w.targetError

mutual

/-- The statements of made-up functions. -/
def exec : Stmt → Run σ Unit
  | .expr e => do
    let _ ← eval w e
  | .var _ list => list.declarators.forM (declare w)
  | .block body => execAll body
  | .ifThen test yes => do if (← eval w test).isTruthy then exec yes
  | .forIn (.var ⟨.var, [⟨.ident x, none⟩]⟩) object body => do
    let v ← eval w object
    (← keys v).forM fun key => do
      write x.name (.string key)
      exec body
  | .function _ _ | .empty => return
  | _ => throw w.targetError

def execAll : List Stmt → Run σ Unit
  | [] => return
  | s :: ss => do
    exec s
    execAll ss

end

/-- The parameters of a function, and the variables that its body declares. -/
def locals (f : Func) : List String :=
  f.params.filterMap (·.pattern.ident?.map (·.name)) ++
    (blockVarBindings f.body).map (·.ident.name)

/-- A function is called; its variables are its own. -/
def invoke (f : Func) (args : List Value) : Run σ Unit := do
  let outer := (← get).vars
  let given := (f.params.filterMap (·.pattern.ident?.map (·.name))).zip args
  modify (·.holding (locals f) fun x => some ((given.lookup x).getD .undefined))
  execAll w keys f.body
  modify (·.holding (locals f) outer)

/-- The declaration of a function among some statements. -/
def functionIn? (stmts : List Stmt) (name : String) : Option Func :=
  stmts.findSome? fun
    | .function _ f => if f.name.any (·.name = name) then some f else none
    | _ => none

/-- A function that some statements declare is called. -/
def callDeclared (stmts : List Stmt) (name : String) (args : List Value) : Run σ Unit :=
  match functionIn? stmts name with
  | some f => invoke w keys f args
  | none => throw w.referenceError

end

/-- The keys that a loop over a value sees. -/
def keysOf (v : Value) : Run Heap (List String) := do
  let h := (← get).rest
  match v with
  | .object id => return h.keys id
  | _ => return []

end RegisterForm.Dynamic
