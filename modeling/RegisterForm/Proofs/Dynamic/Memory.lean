import RegisterForm.Proofs.Dynamic.Forwarding
import RegisterForm.Registration.Rest
/-!
# Objects with symbols for keys

A heap whose objects may have properties under symbols, arrays among the objects, and a world in
which made-up functions are called that count in a loop and return a value. Arrays are objects with
their elements under the texts of the indices; assigning an element leaves the length as it is.
-/
namespace RegisterForm.Dynamic

/-! ## Numbers -/

/-- What some decimal digits stand for. -/
def digits? (digits : List Char) : Option Nat :=
  if digits ≠ [] ∧ digits.all (·.isDigit) then some (Nat.ofDigitChars 10 digits 0) else none

theorem digits?_repr (n : Nat) : digits? n.repr.toList = some n := by
  have hdigits : ∀ c ∈ Nat.toDigits 10 n, c.isDigit = true := fun c hc =>
    Nat.isDigit_of_mem_toDigits (by decide) (by decide) hc
  have hne : Nat.toDigits 10 n ≠ [] := List.ne_nil_of_length_pos Nat.length_toDigits_pos
  rw [Nat.toList_repr, digits?, if_pos ⟨hne, List.all_eq_true.mpr hdigits⟩,
    Nat.ofDigitChars_ten_toDigits]

theorem repr_inj {m n : Nat} (h : m.repr = n.repr) : m = n := by
  have hdigits := digits?_repr n
  rw [← h, digits?_repr] at hdigits
  exact Option.some.inj hdigits

/-- The text of an index starts with a digit. -/
theorem repr_ne_of_head {n : Nat} {text : String} {c : Char} (hhead : text.toList.head? = some c)
    (hc : c.isDigit = false) : n.repr ≠ text := by
  rintro rfl
  have hmem : c ∈ Nat.toDigits 10 n := by
    rw [← Nat.toList_repr]
    exact List.mem_of_head? hhead
  rw [Nat.isDigit_of_mem_toDigits (by decide) (by decide) hmem] at hc
  cases hc

namespace Value

def ofInt (i : Int) : Value := .number i.repr

/-- The whole number that a number is, where it is one. -/
def int? : Value → Option Int
  | number text =>
    match text.toList with
    | '-' :: digits => (digits? digits).map fun n => -(n : Int)
    | digits => (digits? digits).map fun n => (n : Int)
  | _ => none

@[simp] theorem int?_ofInt : (i : Int) → (ofInt i).int? = some i
  | .ofNat n => by
    show (match n.repr.toList with
      | '-' :: digits => (digits? digits).map fun n => -(n : Int)
      | digits => (digits? digits).map fun n => (n : Int)) = _
    split
    · next digits h =>
      have hhead : n.repr.toList.head? = some '-' := by
        rw [h]
        rfl
      exact absurd rfl (repr_ne_of_head hhead (by decide))
    · rw [digits?_repr]
      rfl
  | .negSucc n => by
    have hsign : (Int.negSucc n).repr.toList = '-' :: (n + 1).repr.toList := by
      show ("-" ++ (n + 1).repr).toList = _
      rw [String.toList_append]
      rfl
    simp only [ofInt, int?, hsign, digits?_repr]
    rfl

theorem text?_ofInt (i : Nat) : (ofInt i).text? = some i.repr := rfl

def isNullish : Value → Bool
  | undefined | null => true
  | _ => false

end Value

/-! ## The memory -/

structure SymbolSlot where
  symbol : Nat
  value : Value
  isEnumerable : Bool := true
  deriving DecidableEq

/-- A heap, and what its objects have under symbols. -/
structure Memory where
  heap : Heap
  symbols : Nat → List SymbolSlot

namespace Memory
variable (M : Memory)

/-- The properties of an object's own that are enumerable, each with its key. Texts come before
symbols. -/
def entries (id : Nat) : List (Value × Value) :=
  (M.heap.objects[id]?.elim [] (·.entries)).map (fun entry => (.string entry.1, entry.2)) ++
    ((M.symbols id).filter (·.isEnumerable)).map fun s => (.symbol s.symbol, s.value)

def ownSymbol? (id symbol : Nat) : Option SymbolSlot := (M.symbols id).find? (·.symbol == symbol)

/-- What an object has under a symbol, its own before what it inherits. -/
def findSymbol? (symbol : Nat) : (depth : Nat) → (id : Nat) → Option Value
  | 0, _ => none
  | depth + 1, id =>
    match M.ownSymbol? id symbol with
    | some s => some s.value
    | none => (M.heap.proto? id).bind (findSymbol? symbol depth)

def withSymbols (id : Nat) (slots : List SymbolSlot) : Memory :=
  { M with symbols := fun i => if i = id then slots else M.symbols i }

/-- A property of the object's own gets a value; a new one is enumerable. -/
def defineSymbol (id symbol : Nat) (v : Value) : Memory :=
  M.withSymbols id <|
    if (M.ownSymbol? id symbol).isSome then
      (M.symbols id).map fun s => if s.symbol = symbol then { s with value := v } else s
    else M.symbols id ++ [⟨symbol, v, true⟩]

/-- Whether a property of an object's own is enumerable, where there is one. -/
def isEnumerable? (id : Nat) : Value → Option Bool
  | .symbol symbol => (M.ownSymbol? id symbol).map (·.isEnumerable)
  | key => do
    let text ← key.text?
    let o ← M.heap.objects[id]?
    return (← o.slots.find? (·.key == text)).isEnumerable

end Memory

/-- A computation on the heap alone. -/
def onHeap {α : Type} (x : Run Heap α) : Run Memory α := ExceptT.mk fun store =>
  let (result, after) := x.outcome ⟨store.vars, store.rest.heap⟩
  (result, ⟨after.vars, { store.rest with heap := after.rest }⟩)

theorem outcome_onHeap {α : Type} {x : Run Heap α} {vars vars' : String → Option Value}
    {M : Memory} {h : Heap} {result : Except Value α}
    (hx : x.outcome ⟨vars, M.heap⟩ = (result, ⟨vars', h⟩)) :
    (onHeap x).outcome ⟨vars, M⟩ = (result, ⟨vars', { M with heap := h }⟩) := by
  show (let (result, after) := x.outcome ⟨vars, M.heap⟩
    (result, Store.mk after.vars { M with heap := after.rest })) = _
  rw [hx]

/-! ## Arrays -/

/-- An array; its length is not enumerable. -/
def Obj.ofElements (elements : List Value) (proto : Nat) : Obj where
  slots := elements.mapIdx (fun i v => ⟨i.repr, .value v, true⟩) ++
    [⟨"length", .value (.ofInt elements.length), false⟩]
  proto := some proto

namespace Heap
variable (h : Heap)

def value (id : Nat) (key : String) : Value :=
  match h.own? id key with
  | some (.value v) => v
  | _ => .undefined

def length (id : Nat) : Nat := ((h.value id "length").int?.getD 0).toNat

/-- The elements of an array. -/
def elements (id : Nat) : List Value :=
  (List.range (h.length id)).map fun i => h.value id i.repr

/-- The index of the first element that is the value, or -1. -/
def indexOf (id : Nat) (v : Value) : Int :=
  ((h.elements id).findIdx? (·.strictEquals v)).elim (-1) Int.ofNat

end Heap

/-! ## The world -/

/-- The built-in objects, and what the numbers of the source are. -/
structure Library extends Realm where
  arrayPrototype : Nat
  indexOf : Nat
  propertyIsEnumerable : Nat
  getOwnPropertySymbols : Nat
  /-- What `__rest` stands for. -/
  copier : Nat
  numberText : String → String

namespace Library
variable (L : Library)

def functions : List Nat :=
  [L.hasOwnProperty, L.functionCall, L.indexOf, L.propertyIsEnumerable, L.getOwnPropertySymbols,
    L.copier]

def getProperty (owner key : Value) : Run Memory Value := do
  match key with
  | .symbol symbol =>
    let M := (← get).rest
    match L.holder? owner with
    | some id => return (M.findSymbol? symbol M.heap.objects.length id).getD .undefined
    | none => throw L.typeError
  | key => onHeap (L.toRealm.getProperty owner key)

def putProperty (owner key value : Value) : Run Memory Unit :=
  match owner, key with
  | .object id, .symbol symbol =>
    modify fun store => { store with rest := store.rest.defineSymbol id symbol value }
  | owner, key => onHeap (L.toRealm.putProperty owner key value)

def array (elements : List Value) : Run Memory Value :=
  onHeap (Realm.allocate (.ofElements elements L.arrayPrototype))

/-- A built-in function called on a value. -/
def native (callee receiver : Value) (args : List Value) : Run Memory Value := do
  let M := (← get).rest
  match receiver, args with
  | .object id, [key] =>
    if callee = .object L.hasOwnProperty then return .boolean (M.isEnumerable? id key).isSome
    else if callee = .object L.propertyIsEnumerable then
      return .boolean ((M.isEnumerable? id key).getD false)
    else if callee = .object L.indexOf then return .ofInt (M.heap.indexOf id key)
    else if callee = .object L.getOwnPropertySymbols then
      match key with
      | .object owner => L.array ((M.symbols owner).map fun s => .symbol s.symbol)
      | _ => throw L.typeError
    else throw L.typeError
  | _, _ => throw L.typeError

/-- What has no `call` of its own is called with the value to call it on for a first argument. -/
def call (callee receiver : Value) (args : List Value) : Run Memory Value :=
  if callee = .object L.functionCall then L.native receiver (args.headD .undefined) args.tail
  else L.native callee receiver args

def binary (op : BinaryOp) (left right : Value) : Run Memory Value :=
  match op, left.int?, right.int? with
  | .lt, some a, some b => return .boolean (a < b)
  | .ne, _, _ =>
    if right.isNullish then return .boolean !left.isNullish else throw L.typeError
  | .strictNe, _, _ => return .boolean !left.strictEquals right
  | _, _, _ => throw L.typeError

def increment (x : Ident) : Run Memory Value := do
  match ((← get).vars x.name).bind (·.int?) with
  | some i =>
    write x.name (.ofInt (i + 1))
    return .ofInt i
  | none => throw L.typeError

/-- What is there without `__rest`. -/
def base : World Memory where
  referenceError := L.referenceError
  targetError := L.typeError
  numberText := L.numberText
  isCallable id := id ∈ L.functions
  getProperty := L.getProperty
  putProperty := L.putProperty
  call := L.call
  array := L.array
  unary _ _ := throw L.typeError
  binary := L.binary
  other e :=
    match e with
    | .object properties => onHeap (L.toRealm.world.other (.object properties))
    | .update .increment false (.ident x) => L.increment x
    | _ => throw L.typeError

end Library

/-! ## Functions that return -/

section
variable {σ : Type} (w : World σ) (keys : Value → Run σ (List String)) (rounds : Nat)

/-- A loop that throws when it has not ended after a number of rounds. -/
def repeatWhile (test : Run σ Value) (round : Run σ Unit) : (rounds : Nat) → Run σ Unit
  | 0 => throw w.targetError
  | rounds + 1 => do
    if (← test).isTruthy then
      round
      repeatWhile test round rounds

/-- Statements, loops that count among them. -/
def perform : Stmt → Run σ Unit
  | .forLoop (.var list) (some test) (some update) body => do
    list.declarators.forM (declare w)
    repeatWhile w (eval w test) (do exec w keys body; let _ ← eval w update) rounds
  | .ifThen test yes => do if (← eval w test).isTruthy then perform yes
  | st => exec w keys st

/-- What a body returns. -/
def result : List Stmt → Run σ Value
  | [] => return .undefined
  | .ret e :: _ => evalExpr? w e
  | st :: sts => do
    perform w keys rounds st
    result sts

/-- The variables where the body of a function starts. -/
def given (f : Func) (args : List Value) (vars : String → Option Value) : String → Option Value :=
  let params := (f.params.filterMap (·.pattern.ident?.map (·.name))).zip args
  fun x => if x ∈ locals f then some ((params.lookup x).getD .undefined) else vars x

/-- A function is called for the value that it returns; its variables are its own. -/
def answer (f : Func) (args : List Value) : Run σ Value := do
  let outer := (← get).vars
  modify fun store => { store with vars := given f args outer }
  let v ← result w keys rounds f.body
  modify (·.holding (locals f) outer)
  return v

end

namespace Rest

/-- The function that a registered module defines under the name `__rest`. -/
def copier : Func :=
  ⟨none, [.ofName "s", .ofName "e"],
    [.varInit "t" (some (.object [])), Rest.copyStrings, Rest.copySymbols,
      .ret (some (.ofName "t"))], false, false⟩

theorem define_eq : Rest.define = .varInit restName (some (.binary .or
    (.paren (.binary .and .this (Expr.this.dot restName))) (.function copier))) := rfl

theorem locals_copier : locals copier = ["s", "e", "t", "p", "i", "p"] := rfl

end Rest

/-- The keys that a loop over a value sees. -/
def memoryKeys (v : Value) : Run Memory (List String) := onHeap (keysOf v)

/-- The world in which `__rest` is the function that is defined under this name. -/
def Library.world (L : Library) (rounds : Nat) : World Memory :=
  { L.base with
    call := fun callee receiver args =>
      if callee = .object L.copier then
        answer L.base memoryKeys rounds Rest.copier args
      else L.call callee receiver args }

end RegisterForm.Dynamic
