import RegisterForm.Error
import RegisterForm.Interface
/-!
# Dependencies

The modules that a module depends on, each with all statements that name it. They come in
the order in which the source first names them.
-/
namespace RegisterForm

/-- One module depended on, under its name after renaming. -/
structure Dependency where
  name : String
  uses : List Dependence

namespace Dependency

/-- Files a statement under the module it names. -/
def insert (name : String) (use : Dependence) : List Dependency → List Dependency
  | [] => [⟨name, [use]⟩]
  | d :: ds =>
    if d.name = name then ⟨name, d.uses ++ [use]⟩ :: ds else d :: insert name use ds

/-- A name is listed where it first occurs. -/
theorem map_name_insert (name : String) (use : Dependence) (ds : List Dependency) :
    (insert name use ds).map (·.name) =
      if name ∈ ds.map (·.name) then ds.map (·.name) else ds.map (·.name) ++ [name] := by
  induction ds with
  | nil => rfl
  | cons d ds ih =>
    by_cases h : d.name = name
    · simp [insert, h]
    · have hne : name ≠ d.name := fun e => h e.symm
      simp only [insert, h, if_false, List.map_cons, ih, List.mem_cons, hne, false_or]
      split <;> simp

/-- The dependencies of a file. A specifier that is no string literal cannot be read. -/
def group (file : SourceFile) (uses : List Dependence) : Except LowerError (List Dependency) :=
  uses.foldlM (fun ds use =>
    match use.specifier.string? with
    | none => .error (.unreadableSpecifier file.name use.site.span)
    | some text => .ok (insert (file.resolveSpecifier text) use ds)) []

end Dependency
end RegisterForm
