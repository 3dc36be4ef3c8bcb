import RegisterForm.Json.Value
import RegisterForm.Options.Basic
/-!
# Reading options

Options are written as a JSON object with a member for each setting, or as an array of the
settings in order. Settings left out keep their default, and members that are no setting are
passed over.
-/
namespace RegisterForm

namespace Target

/-- A target is written as its name, or as an object whose one member it names. -/
def ofJson? : Json → Option Target
  | .string (some s) => ofName? s
  | .object [(some s, .null)] => ofName? s
  | _ => none

/-- The target that a text gives. -/
def parse? (text : String) : Option Target := (Json.parse? text).bind ofJson?

end Target

namespace Options

/-- The settings, in the order of their array form. -/
inductive Field where
  | target | registerFunction | emitUseStrict | emitModuleNameBinding
  deriving DecidableEq, Repr

namespace Field

def all : List Field := [target, registerFunction, emitUseStrict, emitModuleNameBinding]

def name : Field → String
  | target => "target"
  | registerFunction => "registerFunction"
  | emitUseStrict => "emitUseStrict"
  | emitModuleNameBinding => "emitModuleNameBinding"

def ofName? (s : String) : Option Field := all.find? (·.name == s)

@[simp] theorem ofName?_name (field : Field) : ofName? field.name = some field := by
  cases field <;> rfl

end Field

/-- The options with one setting read from its value. -/
def set? (o : Options) : Field → Json → Option Options
  | .target, v => (Target.ofJson? v).map fun target => { o with target }
  | .registerFunction, .string (some registerFunction) => some { o with registerFunction }
  | .emitUseStrict, .boolean emitUseStrict => some { o with emitUseStrict }
  | .emitModuleNameBinding, .boolean emitModuleNameBinding =>
    some { o with emitModuleNameBinding }
  | _, _ => none

/-- Reads members into the options. No setting may occur twice. -/
def ofMembers? (o : Options) (seen : List Field) : List (Option String × Json) → Option Options
  | [] => some o
  | (none, _) :: _ => none
  | (some name, v) :: members =>
    match Field.ofName? name with
    | none => ofMembers? o seen members
    | some field =>
      if seen.contains field then none
      else (o.set? field v).bind fun o => ofMembers? o (field :: seen) members

/-- Reads items into the settings that are left. -/
def ofItems? (o : Options) : List Field → List Json → Option Options
  | _, [] => some o
  | [], _ :: _ => none
  | field :: fields, v :: vs => (o.set? field v).bind fun o => ofItems? o fields vs

def ofValue? : Json → Option Options
  | .object members => ofMembers? {} [] members
  | .array items => ofItems? {} Field.all items
  | _ => none

/-- The options that a text gives. -/
def parse? (text : String) : Option Options := (Json.parse? text).bind ofValue?

end Options
end RegisterForm
