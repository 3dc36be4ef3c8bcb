import RegisterForm.Options.Reader
import RegisterForm.Print.Tree
import RegisterForm.Session
/-!
# Batches

Files lowered to program text. The first file that fails ends the batch.
-/
namespace RegisterForm

/-- The text that one file was lowered to. -/
structure LoweredFile where
  fileName : String
  /-- The names of the dependencies, in the order of the setters. -/
  dependencies : List String
  code : String
  deriving DecidableEq, Repr

inductive BatchError where
  | invalidOptions
  | lowering (file : String) (cause : LowerError)
  deriving DecidableEq, Repr

def BatchError.message : BatchError → String
  | invalidOptions => "invalid lowering options"
  | lowering file cause => "failed to lower " ++ file ++ ": " ++ cause.message

namespace Batch

/-- Lowers and prints the next file of a session. Each file is bound in a table of its own. -/
def lowerNext (file : SourceFile) (s : Session) (h : s.isInFile = false) :
    Except BatchError LoweredFile × Session :=
  let (result, s) := Session.lowerNext file { s with names := {} } h
  (match result with
    | .ok lowered => .ok ⟨file.name, lowered.dependencies, lowered.statement.print⟩
    | .error cause => .error (.lowering file.name cause), s)

theorem isInFile_lowerNext (file : SourceFile) (s : Session) (h : s.isInFile = false) :
    (lowerNext file s h).2.isInFile = false := rfl

/-- Lowers one file. -/
def lowerFile (options : Options) (file : SourceFile) : Except BatchError LoweredFile :=
  (lowerNext file { options } (Session.isInFile_mk ..)).1

/-- Lowers the files that are left of a batch. -/
def lowerRest (s : Session) (h : s.isInFile = false) :
    List SourceFile → Except BatchError (List LoweredFile)
  | [] => .ok []
  | file :: files =>
    let next := lowerNext file s h
    match next.1 with
    | .error e => .error e
    | .ok lowered => (lowerRest next.2 (isInFile_lowerNext file s h) files).map (lowered :: ·)

/-- Lowers files in order, up to the first that fails. -/
def lowerFiles (options : Options) (files : List SourceFile) :
    Except BatchError (List LoweredFile) :=
  lowerRest { options } (Session.isInFile_mk ..) files

/-- Lowers files with options given as text, which is read before any file. -/
def lowerFilesWith (optionsText : String) (files : List SourceFile) :
    Except BatchError (List LoweredFile) :=
  match Options.parse? optionsText with
  | none => .error .invalidOptions
  | some options => lowerFiles options files

/-! ## Reports -/

private def margin (level : Nat) : List Char := '\n' :: List.replicate (2 * level) ' '

/-- Items between brackets, each on a line of its own; without items, the brackets alone. -/
private def collection (level : Nat) (opening closing : Char) : List (List Char) → List Char
  | [] => [opening, closing]
  | item :: items =>
    opening :: margin (level + 1) ++ item
      ++ items.flatMap (fun item => ',' :: margin (level + 1) ++ item)
      ++ margin level ++ [closing]

private def member (name : String) (value : List Char) : List Char :=
  Text.quote Text.escapeData name ++ ':' :: ' ' :: value

private def fileReport (file : LoweredFile) : List Char :=
  collection 1 '\x7b' '\x7d'
    [member "fileName" (Text.quote Text.escapeData file.fileName),
      member "dependencies"
        (collection 2 '[' ']' (file.dependencies.map (Text.quote Text.escapeData))),
      member "code" (Text.quote Text.escapeData file.code)]

/-- Lowered files as a JSON array, indented by two columns a level. -/
def report (files : List LoweredFile) : String :=
  String.ofList (collection 0 '[' ']' (files.map fileReport))

end Batch
end RegisterForm
