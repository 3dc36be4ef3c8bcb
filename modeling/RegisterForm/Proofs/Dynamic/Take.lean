import RegisterForm.Proofs.Dynamic.Eval
import RegisterForm.Lowering.Tree
/-!
# What taking a value apart means

A pattern takes a value: what the value is read from is evaluated once for each level of the
pattern, and all that the level reads is read from the value that it had then. A level with one part
reads once, and evaluates its source where it reads.
-/
namespace RegisterForm.Dynamic

variable {σ : Type} (w : World σ) (s : Setting)

/-! ## Steps -/

/-- The value is computed now, and given again wherever it is asked for. -/
def hold (m : Run σ Value) : Run σ (Run σ Value) := do
  let v ← m
  return pure v

def holdUnlessOne (count : Nat) (m : Run σ Value) : Run σ (Run σ Value) :=
  if count = 1 then return m else hold m

/-- The default stands in for a value that is undefined. -/
def fallBack (m : Run σ Value) : Option Expr → Run σ (Run σ Value)
  | none => return m
  | some fallback => do
    let v ← m
    return if v = .undefined then eval w fallback else pure v

def property (m : Run σ Value) (key : Value) : Run σ Value := do w.getProperty (← m) key

/-- How a rest leaves out the property under a key: the key as the source has it, and its value. -/
abbrev Exclusion (σ : Type) := Key → Value → Run σ Value

/-- The key that a rest is given to leave out what is read under a computed key. -/
def keyOf (k : Value) : Run σ Value :=
  if w.typeText k = "symbol" then return k else w.add k (.string "")

/-- Texts and numbers are left out as they are written. -/
def asWritten : Exclusion σ
  | .name text, _ | .string text, _ => return .string text
  | .number source, _ => return .string source
  | .computed _, k => keyOf w k

/-- What is read under a key, and what a rest leaves out for it. A key that a rest leaves out is
evaluated once, before the value that is read from. -/
def readKey (exclude : Exclusion σ) (hasRest : Bool) (m : Run σ Value) :
    Key → Run σ (Run σ Value × Run σ Value)
  | .name text =>
    return (property w m (.string text), exclude (.name text) (.string text))
  | .string text =>
    return (property w m (.string text), exclude (.string text) (.string text))
  | .number source =>
    let k := .number (w.numberText source)
    return (property w m k, exclude (.number source) k)
  | .computed e => do
    if hasRest then
      let k ← eval w e
      return (property w m k, exclude (.computed e) k)
    else return (do w.getProperty (← m) (← eval w e), eval w e)

def element (m : Run σ Value) (index : Nat) : Run σ Value :=
  property w m (.number (w.numberText (toString index)))

/-- Everything but the properties under some keys. -/
def remaining (m : Run σ Value) (keys : List (Run σ Value)) : Run σ Value := do
  let f ← read w restName
  let v ← m
  let ks ← keys.mapM id
  w.call f .undefined [v, ← w.array ks]

/-- The elements from an index on. -/
def elementsFrom (m : Run σ Value) (index : Nat) : Run σ Value := do
  let v ← m
  let f ← w.getProperty v (.string "slice")
  w.call f v [.number (w.numberText (toString index))]

/-- A value is published under a name when it has been computed. -/
def publishing (name : String) (m : Run σ Value) : Run σ Value := do
  let f ← read w s.exporter
  w.call f .undefined [.string name, ← m]

/-- A variable is assigned, and published under its names. -/
def bindTo (x : Ident) (m : Run σ Value) : Run σ Value :=
  (s.exportNames x).foldl (fun m name => publishing w s name m) do
    let v ← m
    write x.name v
    return v

def storeTo (target : Expr) (m : Run σ Value) : Run σ Value := do
  let r ← refer w target
  let v ← m
  w.put v r
  return v

/-! ## Patterns -/

variable (exclude : Exclusion σ)

mutual

def take : Pattern → Run σ Value → Run σ Unit
  | .ident x => fun m => do
    let _ ← bindTo w s x m
  | .expr e => fun m => do
    let _ ← storeTo w e m
  | .object ps rest => fun m => do
    let m ← holdUnlessOne (ps.length + rest.toList.length) m
    let keys ← takeProperties rest.isSome ps m
    takeRest rest (remaining w m keys)
  | .array es rest => fun m => do
    let m ← holdUnlessOne (es.length + rest.toList.length) m
    takeSlots 0 es m
    takeRest rest (elementsFrom w m es.length)

def takeRest : Option Pattern → Run σ Value → Run σ Unit
  | none => fun _ => return
  | some p => take p

/-- It gives the key that a rest leaves out. -/
def takeProperty (hasRest : Bool) : PatternProperty → Run σ Value → Run σ (Run σ Value)
  | .keyed key target fallback => fun m => do
    let (access, excluded) ← readKey w exclude hasRest m key
    take target (← fallBack w access fallback)
    return excluded
  | .shorthand x fallback => fun m => do
    let access ← fallBack w (property w m (.string x.name)) fallback
    let _ ← bindTo w s x access
    return exclude (.name x.name) (.string x.name)

def takeProperties (hasRest : Bool) : List PatternProperty → Run σ Value → Run σ (List (Run σ Value))
  | [] => fun _ => return []
  | p :: ps => fun m => do
    let excluded ← takeProperty hasRest p m
    return excluded :: (← takeProperties hasRest ps m)

def takeElement : PatternElement → Run σ Value → Run σ Unit
  | ⟨target, fallback⟩ => fun m => do take target (← fallBack w m fallback)

def takeSlot : Option PatternElement → Run σ Value → Run σ Unit
  | none => fun _ => return
  | some e => takeElement e

def takeSlots (index : Nat) : List (Option PatternElement) → Run σ Value → Run σ Unit
  | [] => fun _ => return
  | e :: es => fun m => do
    takeSlot e (element w m index)
    takeSlots (index + 1) es m

end

end RegisterForm.Dynamic
