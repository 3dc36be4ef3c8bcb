import RegisterForm.Limit
import RegisterForm.Scope.Symbol
/-!
# The table of names

The scopes and symbols of one file with the symbol that each identifier stands for, and the
scopes that are open while the file is read. Declaring and resolving are the only ways in
which an identifier comes to stand for a symbol.
-/
namespace RegisterForm

structure NameTable where
  /-- The file whose names these are. -/
  file : Option NodeId := none
  symbols : Array Symbol := #[]
  scopes : Array Scope := #[]
  /-- The symbol of an identifier; the newest entry holds. -/
  ofIdent : List (NodeId × SymbolId) := []
  /-- The symbol that a local export name refers to; the newest entry holds. -/
  ofSpecifier : List (NodeId × SymbolId) := []
  /-- The open scopes, the innermost first. -/
  openScopes : List ScopeId := []
  /-- How many statements and expressions surround the current one. -/
  depth : Nat := 0
  resolved : Nat := 0
  unresolved : Nat := 0

namespace NameTable

def symbol? (t : NameTable) (id : SymbolId) : Option Symbol := t.symbols[id]?

def scope? (t : NameTable) (id : ScopeId) : Option Scope := t.scopes[id]?

/-! ## Scopes -/

def enter (kind : ScopeKind) (t : NameTable) : NameTable :=
  { t with
    scopes := t.scopes.push { kind, parent := t.openScopes.head? }
    openScopes := t.scopes.size :: t.openScopes }

def leave (t : NameTable) : NameTable := { t with openScopes := t.openScopes.tail }

theorem openScopes_leave_enter (kind : ScopeKind) (t : NameTable) :
    (t.enter kind).leave.openScopes = t.openScopes := rfl

/-- Runs a step in a scope of its own. -/
def inScope (kind : ScopeKind) (step : NameTable → NameTable) (t : NameTable) : NameTable :=
  (step (t.enter kind)).leave

/-- Runs a step in a scope of its own, if one is wanted. -/
def inScopeIf (wanted : Bool) (kind : ScopeKind) (step : NameTable → NameTable) (t : NameTable) :
    NameTable :=
  if wanted then t.inScope kind step else step t

/-- Runs a step one level deeper, and not at all below the deepest level. -/
def deeper (step : NameTable → NameTable) (t : NameTable) : NameTable :=
  if t.depth < maxTreeDepth then
    let t := step { t with depth := t.depth + 1 }
    { t with depth := t.depth - 1 }
  else t

theorem deeper_of_le (step : NameTable → NameTable) {t : NameTable} (h : maxTreeDepth ≤ t.depth) :
    t.deeper step = t := by
  simp [deeper, Nat.not_lt.mpr h]

theorem depth_deeper {step : NameTable → NameTable} (h : ∀ t, (step t).depth = t.depth)
    (t : NameTable) : (t.deeper step).depth = t.depth := by
  unfold deeper
  split <;> simp [h]

/-- The innermost open scope that `var` declarations belong to. -/
def varScope? (t : NameTable) : Option ScopeId :=
  t.openScopes.find? fun id => (t.scope? id).any (·.kind.holdsVars)

/-! ## Declaring -/

/-- Declares a name in a scope. A name already declared there gains the new roles. -/
def declareIn (b : Binding) (scopeId : ScopeId) (t : NameTable) : NameTable :=
  match t.scope? scopeId with
  | none => t
  | some scope =>
    match scope.symbols.lookup b.ident.name with
    | some id =>
      { t with
        symbols := t.symbols.modify id fun s =>
          { s with roles := s.roles.union b.roles, origin := b.origin.or s.origin }
        ofIdent := (b.ident.id, id) :: t.ofIdent }
    | none =>
      let id := t.symbols.size
      { t with
        symbols := t.symbols.push ⟨b.ident.name, b.roles, b.ident.id, scopeId, b.origin⟩
        scopes := t.scopes.modify scopeId fun s =>
          { s with symbols := (b.ident.name, id) :: s.symbols }
        ofIdent := (b.ident.id, id) :: t.ofIdent }

/-- Declares a name in the innermost scope. -/
def declare (b : Binding) (t : NameTable) : NameTable :=
  match t.openScopes.head? with
  | none => t
  | some scope => t.declareIn b scope

/-- Declares a name in the innermost scope that `var` declarations belong to. -/
def declareVar (b : Binding) (t : NameTable) : NameTable :=
  match t.varScope? with
  | none => t
  | some scope => t.declareIn b scope

def declareAll (bs : List Binding) (t : NameTable) : NameTable := bs.foldl (fun t b => t.declare b) t

def declareVars (bs : List Binding) (t : NameTable) : NameTable :=
  bs.foldl (fun t b => t.declareVar b) t

/-! ## Resolving -/

/-- A scope and those around it, the innermost first, `bound` of them at most. -/
def scopesFrom (t : NameTable) : Nat → ScopeId → List ScopeId
  | 0, _ => []
  | bound + 1, id =>
    match t.scope? id with
    | none => []
    | some scope => id :: (match scope.parent with
      | none => []
      | some parent => t.scopesFrom bound parent)

/-- A scope and all those around it, the innermost first. A scope is entered after those
around it, so there are no more of them than its own number tells. -/
def chain (t : NameTable) (id : ScopeId) : List ScopeId := t.scopesFrom (id + 1) id

/-- The symbol of a name in the innermost scope of the current chain that declares it. -/
def lookup? (t : NameTable) (name : String) : Option SymbolId :=
  (t.openScopes.head?.toList.flatMap t.chain).findSome? fun id =>
    (t.scope? id).bind (·.symbols.lookup name)

/-- Makes an identifier stand for what its name means here, unless it already stands for something. -/
def resolve (x : Ident) (t : NameTable) : NameTable :=
  if (t.ofIdent.lookup x.id).isSome then t
  else match t.lookup? x.name with
    | some id => { t with ofIdent := (x.id, id) :: t.ofIdent, resolved := t.resolved + 1 }
    | none => { t with unresolved := t.unresolved + 1 }

end NameTable
end RegisterForm
