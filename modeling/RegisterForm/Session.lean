import RegisterForm.Registration.Call
/-!
# Sessions

A run over several files, one after the other, with the options that they share. A file is bound,
taken up, lowered and done with before the next one is taken up.
-/
namespace RegisterForm

structure Session where
  options : Options
  /-- The names of the file that was bound last. -/
  names : NameTable := {}
  /-- What is known of the file that is being lowered. -/
  current : Option FileState := none

namespace Session

def isInFile (s : Session) : Bool := s.current.isSome

theorem isInFile_mk (options : Options) (names : NameTable) :
    isInFile { options, names } = false := rfl

/-- Binds a file, in the table of the file before. -/
def bind (file : SourceFile) (s : Session) : Session := { s with names := s.names.rebind file }

theorem isInFile_bind (file : SourceFile) (s : Session) :
    (s.bind file).isInFile = s.isInFile := rfl

/-- Takes up a file. The one before must be done with. -/
def start (file : SourceFile) (s : Session) (_ : s.isInFile = false) : Session :=
  { s with current := some (.ofFile file) }

theorem isInFile_start (file : SourceFile) (s : Session) (h : s.isInFile = false) :
    (s.start file h).isInFile = true := rfl

/-- Lowers the file that was taken up. -/
def lowerCurrent (file : SourceFile) (s : Session) (h : s.isInFile = true) :
    Except LowerError Lowered :=
  lowerFrom s.options s.names file (s.current.get h)

def finish (s : Session) : Session := { s with current := none }

/-- Lowers one more file, and is done with it whether or not it could be lowered. -/
def lowerNext (file : SourceFile) (s : Session) (h : s.isInFile = false) :
    Except LowerError Lowered × Session :=
  let s := (s.bind file).start file ((isInFile_bind file s).trans h)
  (s.lowerCurrent file (isInFile_start ..), s.finish)

theorem isInFile_lowerNext (file : SourceFile) (s : Session) (h : s.isInFile = false) :
    (s.lowerNext file h).2.isInFile = false := rfl

/-- Lowers files in order, with the session as each leaves it. -/
def lowerEach : List SourceFile → (s : Session) → (h : s.isInFile = false := by rfl) →
    List (Except LowerError Lowered × Session)
  | [], _, _ => []
  | file :: files, s, h =>
    let next := s.lowerNext file h
    next :: lowerEach files next.2 (isInFile_lowerNext file s h)

end Session
end RegisterForm
