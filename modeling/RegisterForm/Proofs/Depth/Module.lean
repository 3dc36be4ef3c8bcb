import RegisterForm.Proofs.Depth.Lowered
import RegisterForm.Proofs.Lowering.Execute
/-!
# Nothing is cut off unseen

The deepest level is the same for binding and for lowering. A file that goes past it is not lowered,
so that what is lowered has been bound all through, the blocks of those loops excepted in which each
round publishes what the loop assigns: binding counts such a block as a level, and lowering does not.
-/
namespace RegisterForm
open BindStep NameTable

variable {file : SourceFile} {options : Options} {lowered : Lowered}

/-- Whatever lowering touches in a file that it gets through was resolved as the file was bound, if
all levels around it count, or else it is an exported name that is published unresolved. -/
theorem lower_resolves (hl : lower options (ofFile file) file = .ok lowered) {u : Touch}
    (hu : u ∈ file.touched options) (hc : u.isCounted = true) :
    u.ident ∈ resolved file.bindSteps ∨
      (Setting.ofFile options (ofFile file) file).1.exportNames u.ident ≠ [] := by
  obtain ⟨groups, execute, p, hrun, -⟩ := lower_eq_ok hl
  obtain ⟨-, hsettled⟩ := reaches_stmts file.statements .topLevel 0 rfl hrun
  rcases hsettled u hu hc with hresolved | hexported
  · left
    rw [SourceFile.bindSteps, resolved_cons, resolved_append]
    exact List.mem_append_right _ (List.mem_append_right _ hresolved)
  · exact .inr hexported

def Expr.inParens : Nat → Expr → Expr
  | 0, e => e
  | n + 1, e => .paren (e.inParens n)

/-- `import { a } from "m"; export var x;` and one more statement. -/
def importingAnd (st : Stmt) : SourceFile where
  id := .numbered 20
  name := "m.ts"
  statements := [
    .importFrom ⟨.numbered 10, {}⟩ (some ⟨none, some (.named [⟨none, ⟨.numbered 0, "a"⟩, false⟩])⟩)
      (.ofString "m") false,
    .var { isExported := true } ⟨.var, [⟨.ident ⟨.numbered 1, "x"⟩, none⟩]⟩,
    st]

/-- `((a));` with so many parentheses -/
def deepRead (n : Nat) : Stmt := .expr ((Expr.ident ⟨.numbered 4, "a"⟩).inParens n)

/-- `for (var x of y) { ... }` -/
def publishingLoop (st : Stmt) : Stmt :=
  .forOf (.var ⟨.var, [⟨.ident ⟨.numbered 2, "x"⟩, none⟩]⟩) (.ident ⟨.numbered 3, "y"⟩)
    (.block [st]) false

set_option maxRecDepth 20000 in
/-- An import that is read at the deepest level of all. -/
theorem lower_resolves_deepest : ∃ lowered,
    lower {} (ofFile (importingAnd (deepRead 498))) (importingAnd (deepRead 498)) = .ok lowered ∧
      { ident := ⟨.numbered 4, "a"⟩ } ∈ (importingAnd (deepRead 498)).touched {} ∧
      (⟨.numbered 4, "a"⟩ ∈ resolved (importingAnd (deepRead 498)).bindSteps ∨
        (Setting.ofFile {} (ofFile (importingAnd (deepRead 498)))
          (importingAnd (deepRead 498))).1.exportNames ⟨.numbered 4, "a"⟩ ≠ []) := by
  have hlowers : (match lower {} (ofFile (importingAnd (deepRead 498)))
      (importingAnd (deepRead 498)) with | .ok _ => true | .error _ => false) = true := by
    decide +kernel
  have htouched : { ident := ⟨.numbered 4, "a"⟩ } ∈ (importingAnd (deepRead 498)).touched {} := by
    decide +kernel
  cases hl : lower {} (ofFile (importingAnd (deepRead 498))) (importingAnd (deepRead 498)) with
  | error e =>
    rw [hl] at hlowers
    cases hlowers
  | ok lowered => exact ⟨lowered, rfl, htouched, lower_resolves hl htouched rfl⟩

set_option maxRecDepth 20000 in
/-- One level too deep in the block of a publishing loop: the file is lowered, and the import stays
as it is. -/
theorem loop_leaves_import : ∃ lowered,
    lower {} (ofFile (importingAnd (publishingLoop (deepRead 497))))
        (importingAnd (publishingLoop (deepRead 497))) = .ok lowered ∧
      { ident := ⟨.numbered 4, "a"⟩, isCounted := false } ∈
        (importingAnd (publishingLoop (deepRead 497))).touched {} ∧
      ⟨.numbered 4, "a"⟩ ∉ resolved (importingAnd (publishingLoop (deepRead 497))).bindSteps ∧
      ⟨.numbered 4, "a"⟩ ∈ lowered.statement.visits.filterMap Visit.ident? ∧
      (ofFile (importingAnd (publishingLoop (deepRead 497)))).importOf? ⟨.numbered 0, "a"⟩ =
        some ⟨.numbered 10, .named "a"⟩ := by
  have hstays : (match lower {} (ofFile (importingAnd (publishingLoop (deepRead 497))))
      (importingAnd (publishingLoop (deepRead 497))) with
      | .ok lowered => decide (⟨.numbered 4, "a"⟩ ∈ lowered.statement.visits.filterMap Visit.ident?)
      | .error _ => false) = true := by
    decide +kernel
  cases hl : lower {} (ofFile (importingAnd (publishingLoop (deepRead 497))))
      (importingAnd (publishingLoop (deepRead 497))) with
  | error e =>
    rw [hl] at hstays
    cases hstays
  | ok lowered =>
    rw [hl] at hstays
    exact ⟨lowered, rfl, by decide +kernel, by decide +kernel, of_decide_eq_true hstays,
      by decide +kernel⟩

end RegisterForm
