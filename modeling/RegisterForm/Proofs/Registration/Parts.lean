import RegisterForm.Proofs.Script.Module
/-!
# Parts of a registered module

A lowered file is put together from the parts of its run. What the registering call holds, the
dependencies, the setters and the body, is read off the call alone.
-/
namespace RegisterForm

/-! ## Reading the call -/

/-- The elements of an array literal without holes. -/
def Expr.elements? : Expr → Option (List Expr)
  | .array elements => some elements.reduceOption
  | _ => none

@[simp] theorem Expr.elements?_arrayOf (es : List Expr) : (Expr.arrayOf es).elements? = some es := by
  change some ((es.map some).filterMap id) = some es
  rw [List.filterMap_map]
  exact congrArg some List.filterMap_some

/-- The dependencies that a call registers its function under. -/
def Stmt.dependencies? : Stmt → Option (List Expr)
  | .expr (.call _ args _) => args.dropLast.getLast?.bind Expr.elements?
  | _ => none

/-- The setters that the registered function returns. -/
def Stmt.setters? : Stmt → Option (List Expr)
  | .ret (some (.object [.keyed (.name _) setters, _])) => setters.elements?
  | _ => none

def Lowered.setters? (l : Lowered) : Option (List Expr) :=
  l.statement.factory?.bind fun f => f.body.getLast?.bind Stmt.setters?

/-! ## The parts of a run -/

namespace Setting

/-- The helpers for star exports: the function that the setters call, and its definition. -/
def starPart (s : Setting) (groups : List Dependency) (p : Progress) :
    Option String × List Stmt × Hoisting :=
  StarExport.define s p.exportedNames groups p.hoisting.pop.2

def setterPart (s : Setting) (groups : List Dependency) (p : Progress) : List Expr × Hoisting :=
  s.setters (s.starPart groups p).1 groups (s.starPart groups p).2.2

/-- What the registered function returns. -/
def result (setters : List Expr) (execute : List Stmt) : Expr :=
  .object [.ofName "setters" (.arrayOf setters), .ofName "execute" (.functionOf none [] execute)]

/-- The body of the registered function. -/
def body (s : Setting) (groups : List Dependency) (execute : List Stmt) (p : Progress) :
    List Stmt :=
  s.prologue p.hoisting.pop.1 p.functionExports p.needsRest ++ (s.starPart groups p).2.1
    ++ [.ret (some (result (s.setterPart groups p).1 execute))]

variable (s : Setting) (groups : List Dependency) (execute : List Stmt) (p : Progress)

theorem assemble_eq : s.assemble groups execute p =
    ⟨groups.map (·.name), groups.length, s.registration groups (s.body groups execute p)⟩ := rfl

theorem factory?_assemble : (s.assemble groups execute p).statement.factory? =
    some ⟨none, [.ofName s.exporter, .ofName s.context], s.body groups execute p, false, false⟩ := by
  simp [assemble_eq, registration, Stmt.factory?, Expr.apply, Expr.functionOf]

/-- The calls that publish functions stand in the registered function before it returns. -/
theorem body_eq : ∃ opening closing value, s.body groups execute p =
    opening ++ p.functionExports ++ closing ++ [.ret (some value)] := by
  obtain ⟨opening, hopening⟩ : ∃ opening, s.prologue p.hoisting.pop.1 p.functionExports p.needsRest =
      opening ++ p.functionExports ++ if p.needsRest then [Rest.define] else [] := ⟨_, rfl⟩
  refine ⟨opening, (if p.needsRest then [Rest.define] else []) ++ (s.starPart groups p).2.1,
    result (s.setterPart groups p).1 execute, ?_⟩
  rw [body, hopening]
  simp only [List.append_assoc]

theorem dependencies?_assemble : (s.assemble groups execute p).statement.dependencies? =
    some (groups.map fun group => .ofString group.name) := by
  simp [assemble_eq, registration, Stmt.dependencies?, Expr.apply, List.dropLast_append_of_ne_nil]

theorem setters?_assemble :
    (s.assemble groups execute p).setters? = some (s.setterPart groups p).1 := by
  simp only [Lowered.setters?, factory?_assemble, Option.bind_some, body, List.getLast?_concat]
  simp [Stmt.setters?, result, Property.ofName]

end Setting

/-- A successful run: the dependencies are grouped, the statements are lowered, and the module is
put together from both. -/
theorem lower_parts {options : Options} {names : NameTable} {file : SourceFile} {lowered : Lowered}
    (h : lower options names file = .ok lowered) : ∃ groups execute p,
      Dependency.group file (Setting.ofFile options names file).1.interface.dependences =
          .ok groups ∧
        (lowerStmts (Setting.ofFile options names file).1 .topLevel file.statements).run
          { hoisting := (Setting.ofFile options names file).2 } = .ok (execute, p) ∧
        lowered = (Setting.ofFile options names file).1.assemble groups execute p := by
  rw [lower_eq] at h
  simp only [bind, Except.bind] at h
  split at h
  · cases h
  · next groups hgroups =>
    split at h
    · cases h
    · next r hr =>
      cases h
      exact ⟨groups, r.1, r.2, hgroups, hr, rfl⟩

end RegisterForm
