import RegisterForm.Lowering.Tree
/-!
# Enumerating loops lowered

How the body of an enumerating loop is lowered depends on whether it is a block. One equation for
each kind of loop, in which the question is asked of the body alone.
-/
namespace RegisterForm
open Lowering

variable (s : Setting) (place : Place)

/-- The body of an enumerating loop, after what the head of the loop exports. -/
def lowerLoopBody (exports : List Stmt) : Stmt → Lowering Stmt
  | .block inner => blockBody s exports (lowerStmts s place inner)
  | body => return loopBody exports (← body.lower s place)

section loop
variable (head : ForHead) (object : Expr) (body : Stmt)

/-- A loop body that is not a block, made in one step or on its own first. -/
theorem bind_loopBody (loop : ForHead → Expr → Stmt → Stmt) (sts : Lowering (List Stmt)) :
    (do let (head, exports) ← head.lower s place
        let object ← object.lower s true
        return [loop head object (loopBody exports (← sts))] : Lowering (List Stmt)) =
      (do let (head, exports) ← head.lower s place
          let object ← object.lower s true
          return [loop head object (← (do return loopBody exports (← sts)))]) := by
  simp only [bind_assoc, pure_bind]

theorem Stmt.lower_forIn :
    (Stmt.forIn head object body).lower s place = deeper s (do
      let (head, exports) ← head.lower s place
      let object ← object.lower s true
      return [Stmt.forIn head object (← lowerLoopBody s place.inner exports body)]) := by
  cases body with
  | block inner => rfl
  | _ => exact congrArg (deeper s) (bind_loopBody s place head object .forIn _)

theorem Stmt.lower_forOf (isAwait : Bool) :
    (Stmt.forOf head object body isAwait).lower s place = deeper s (do
      let (head, exports) ← head.lower s place
      let object ← object.lower s true
      return [Stmt.forOf head object (← lowerLoopBody s place.inner exports body) isAwait]) := by
  cases body with
  | block inner => rfl
  | _ =>
    exact congrArg (deeper s)
      (bind_loopBody s place head object
        (fun head object body => .forOf head object body isAwait) _)

end loop
end RegisterForm
