import RegisterForm.Registration.Call
import RegisterForm.Proofs.Lowering.Yields
/-!
# The body of a registered module

A lowered file holds its lowered statements as the body of one function, the last property of
what the registered function returns.
-/
namespace RegisterForm

/-- The function that the registered function returns as the body of the module. -/
def Stmt.executeFunction? : Stmt → Option Func
  | .ret (some (.object [_, .keyed (.name _) (.function f)])) => some f
  | _ => none

/-- The function that a call registers. -/
def Stmt.factory? : Stmt → Option Func
  | .expr (.call _ args _) =>
    match args.getLast? with
    | some (.function f) => some f
    | _ => none
  | _ => none

/-- The statements that a registered module runs. -/
def Lowered.execute? (l : Lowered) : Option (List Stmt) :=
  (l.statement.factory?.bind fun f => f.body.getLast?.bind Stmt.executeFunction?).map (·.body)

theorem Setting.execute?_assemble (s : Setting) (groups : List Dependency) (execute : List Stmt)
    (p : Progress) : (s.assemble groups execute p).execute? = some execute := by
  simp [assemble, registration, Lowered.execute?, Stmt.factory?, Stmt.executeFunction?,
    Expr.apply, Expr.functionOf, Property.ofName]

/-- What a computation gives can be checked by running it. -/
theorem exists_ok {ε α : Type} {r : Except ε α} {P : α → Prop} [DecidablePred P]
    (h : r.toOption.any (fun a => decide (P a)) = true) : ∃ a, r = .ok a ∧ P a := by
  cases r with
  | error e => cases h
  | ok a => exact ⟨a, rfl, of_decide_eq_true h⟩

/-- Whether a file is lowered can be checked by lowering it. -/
theorem exists_lowered {options : Options} {names : NameTable} {file : SourceFile}
    (h : (lower options names file).toOption.isSome = true) :
    ∃ lowered, lower options names file = .ok lowered := by
  cases hlowered : lower options names file with
  | error e =>
    rw [hlowered] at h
    cases h
  | ok lowered => exact ⟨lowered, rfl⟩

/-- A lowered file is assembled from its lowered statements. -/
theorem lower_eq_ok {options : Options} {names : NameTable} {file : SourceFile} {lowered : Lowered}
    (h : lower options names file = .ok lowered) : ∃ groups execute p,
      (lowerStmts (Setting.ofFile options names file).1 .topLevel file.statements).run
          { hoisting := (Setting.ofFile options names file).2 } = .ok (execute, p) ∧
        lowered = (Setting.ofFile options names file).1.assemble groups execute p := by
  rw [lower_eq] at h
  simp only [bind, Except.bind] at h
  split at h
  · cases h
  · next groups _ =>
    split at h
    · cases h
    · next r hr =>
      cases h
      exact ⟨groups, r.1, r.2, hr, rfl⟩

end RegisterForm
