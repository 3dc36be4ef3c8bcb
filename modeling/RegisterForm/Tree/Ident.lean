/-!
# Identifiers

Nodes that a later step refers back to carry an identity. Nodes made up by a pass share
one identity, which stands for nothing in the source and never resolves.
-/
namespace RegisterForm

/-- The identity of a node: its number in the source file, or the mark of made-up nodes. -/
inductive NodeId where
  | numbered (n : Nat)
  | synthetic
  deriving DecidableEq, Repr, Inhabited

namespace NodeId

def isSynthetic : NodeId → Bool
  | numbered _ => false
  | synthetic => true

/-- The form used in messages. -/
def display : NodeId → String
  | numbered n => "#" ++ toString n
  | synthetic => "#synthetic"

@[simp] theorem isSynthetic_eq_true {id : NodeId} : id.isSynthetic = true ↔ id = synthetic := by
  cases id <;> simp [isSynthetic]

end NodeId

/-- A byte range of the source text. -/
structure Span where
  start : Nat := 0
  stop : Nat := 0
  deriving DecidableEq, Repr, Inhabited

/-- One occurrence of an identifier. -/
structure Ident where
  id : NodeId
  name : String
  deriving DecidableEq, Repr, Inhabited

/-- An occurrence made up by a pass. -/
def Ident.synthetic (name : String) : Ident := ⟨.synthetic, name⟩

end RegisterForm
