import RegisterForm.Proofs.Dynamic.Simulates
/-!
# Variables that keep their values

Which expressions are evaluated while a pattern takes a value, and when neither they nor the
assignments to the targets write to the variables that are used again.
-/
namespace RegisterForm.Dynamic

variable {σ : Type}

/-! ## Expressions of a pattern -/

def keySources : Key → List Expr
  | .computed e => [e]
  | _ => []

mutual

/-- The computed keys and the defaults of a pattern. -/
def patternSources : Pattern → List Expr
  | .ident _ | .expr _ => []
  | .object ps rest => propertiesSources ps ++ restSources rest
  | .array es rest => slotsSources es ++ restSources rest

def restSources : Option Pattern → List Expr
  | none => []
  | some p => patternSources p

def propertySources : PatternProperty → List Expr
  | .keyed key target fallback => keySources key ++ fallback.toList ++ patternSources target
  | .shorthand _ fallback => fallback.toList

def propertiesSources : List PatternProperty → List Expr
  | [] => []
  | p :: ps => propertySources p ++ propertiesSources ps

def elementSources : PatternElement → List Expr
  | ⟨target, fallback⟩ => fallback.toList ++ patternSources target

def slotSources : Option PatternElement → List Expr
  | none => []
  | some e => elementSources e

def slotsSources : List (Option PatternElement) → List Expr
  | [] => []
  | e :: es => slotSources e ++ slotsSources es

end

mutual

/-- The computed keys that a rest leaves out. -/
def patternHeldKeys : Pattern → List Expr
  | .ident _ | .expr _ => []
  | .object ps rest => propertiesHeldKeys rest.isSome ps ++ restHeldKeys rest
  | .array es rest => slotsHeldKeys es ++ restHeldKeys rest

def restHeldKeys : Option Pattern → List Expr
  | none => []
  | some p => patternHeldKeys p

def propertyHeldKeys (hasRest : Bool) : PatternProperty → List Expr
  | .keyed key target _ => (if hasRest then keySources key else []) ++ patternHeldKeys target
  | .shorthand _ _ => []

def propertiesHeldKeys (hasRest : Bool) : List PatternProperty → List Expr
  | [] => []
  | p :: ps => propertyHeldKeys hasRest p ++ propertiesHeldKeys hasRest ps

def elementHeldKeys : PatternElement → List Expr
  | ⟨target, _⟩ => patternHeldKeys target

def slotHeldKeys : Option PatternElement → List Expr
  | none => []
  | some e => elementHeldKeys e

def slotsHeldKeys : List (Option PatternElement) → List Expr
  | [] => []
  | e :: es => slotHeldKeys e ++ slotsHeldKeys es

end

/-! ## Parts -/

def partSources : Part → List Expr
  | .pattern p => patternSources p
  | .rest p => restSources p
  | .property _ p => propertySources p
  | .properties _ ps => propertiesSources ps
  | .slot e => slotSources e
  | .slots _ es => slotsSources es

def partHeldKeys : Part → List Expr
  | .pattern p => patternHeldKeys p
  | .rest p => restHeldKeys p
  | .property hasRest p => propertyHeldKeys hasRest p
  | .properties hasRest ps => propertiesHeldKeys hasRest ps
  | .slot e => slotHeldKeys e
  | .slots _ es => slotsHeldKeys es

/-- What a part does to a value, and the keys that a rest leaves out for it. -/
def takePart (w : World σ) (s : Setting) (exclude : Exclusion σ) (m : Run σ Value) :
    Part → Run σ (List (Run σ Value))
  | .pattern p => do
    take w s exclude p m
    return []
  | .rest p => do
    takeRest w s exclude p m
    return []
  | .property hasRest p => do return [← takeProperty w s exclude hasRest p m]
  | .properties hasRest ps => takeProperties w s exclude hasRest ps m
  | .slot e => do
    takeSlot w s exclude e m
    return []
  | .slots index es => do
    takeSlots w s exclude index es m
    return []

/-! ## Variables that are kept -/

/-- No operation of the world writes to the variables. -/
structure World.Keeps (w : World σ) (kept : List String) : Prop where
  getProperty : ∀ owner key, Dynamic.Keeps kept (w.getProperty owner key)
  putProperty : ∀ owner key value, Dynamic.Keeps kept (w.putProperty owner key value)
  call : ∀ callee receiver args, Dynamic.Keeps kept (w.call callee receiver args)
  array : ∀ elements, Dynamic.Keeps kept (w.array elements)
  binary : ∀ op left right, Dynamic.Keeps kept (w.binary op left right)

/-- Assigning the leaf does not write to the variables. -/
def LeafKeeps (w : World σ) (kept : List String) : Leaf → Prop
  | .ident x => x.name ∉ kept
  | .target e => Keeps kept (refer w e) ∧
    ∀ store r store', (refer w e).outcome store = (.ok r, store') → r.Avoids kept

/-- A variable that is used again is one of those that are kept. -/
def Reuses (bound kept : List String) (e : Expr) : Prop :=
  ∀ x, e = .ident x → e.isReusable bound = true → x.name ∈ kept

/-- A part does not write to the variables that are kept, and those that it uses again are. -/
structure PartKeeps (w : World σ) (bound kept : List String) (part : Part) : Prop where
  leaves : ∀ leaf ∈ part.leaves, LeafKeeps w kept leaf
  sources : ∀ e ∈ partSources part, Keeps kept (eval w e)
  heldKeys : ∀ e ∈ partHeldKeys part, Reuses bound kept e

theorem PartKeeps.sub {w : World σ} {kept bound : List String} {part part' : Part}
    (h : PartKeeps w bound kept part)
    (hleaves : part'.leaves ⊆ part.leaves) (hsources : partSources part' ⊆ partSources part)
    (hkeys : partHeldKeys part' ⊆ partHeldKeys part) : PartKeeps w bound kept part' :=
  ⟨fun leaf hleaf => h.leaves leaf (hleaves hleaf), fun e he => h.sources e (hsources he),
    fun e he => h.heldKeys e (hkeys he)⟩

end RegisterForm.Dynamic
