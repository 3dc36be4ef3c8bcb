/-!
# Targets

The language versions that the printed program may be meant for, the oldest first.
-/
namespace RegisterForm

inductive Target where
  | es3 | es5 | es2015 | es2016 | es2017 | es2018 | es2019 | es2020 | es2021 | es2022 | esNext
  deriving DecidableEq, Repr, Inhabited

namespace Target

def all : List Target :=
  [es3, es5, es2015, es2016, es2017, es2018, es2019, es2020, es2021, es2022, esNext]

def name : Target → String
  | es3 => "es3"
  | es5 => "es5"
  | es2015 => "es2015"
  | es2016 => "es2016"
  | es2017 => "es2017"
  | es2018 => "es2018"
  | es2019 => "es2019"
  | es2020 => "es2020"
  | es2021 => "es2021"
  | es2022 => "es2022"
  | esNext => "esnext"

def ofName? (s : String) : Option Target := all.find? (·.name == s)

@[simp] theorem ofName?_name (t : Target) : ofName? t.name = some t := by
  cases t <;> rfl

/-- Versions are ordered by age. -/
instance : Ord Target := ⟨fun a b => compare a.ctorIdx b.ctorIdx⟩

/-- The version in which a reserved word cannot follow a dot. -/
def isEs3 (t : Target) : Bool := t == es3

end Target
end RegisterForm
