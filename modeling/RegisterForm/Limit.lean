/-!
# Limits

Every walk that resolves or lowers stops at a fixed nesting, so that its outcome on a
deep tree is a matter of the tree alone.
-/
namespace RegisterForm

/-- Statements and expressions nested this deep are neither resolved nor lowered. -/
def maxTreeDepth : Nat := 500

/-- Binding patterns may nest this deep. -/
def maxPatternDepth : Nat := 100

/-- Numeric suffixes tried before a unique name settles for the next one unseen. -/
def maxNameAttempts : Nat := 100000

end RegisterForm
