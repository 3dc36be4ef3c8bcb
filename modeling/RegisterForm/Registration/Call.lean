import RegisterForm.Registration.Setter
import RegisterForm.Registration.StarExport
import RegisterForm.Scope.Bind
/-!
# Registration calls

A module in its lowered form: one call that registers it under its dependencies with a
function. The function declares what the module declares, and returns the setters and the
body to run.
-/
namespace RegisterForm

structure Lowered where
  /-- The names of the dependencies, in the order of the setters. -/
  dependencies : List String
  setterCount : Nat
  statement : Stmt

namespace Setting

/-- The statements at the start of the registered function: what the module declares, and the
exports of its functions. -/
def prologue (s : Setting) (frame : Frame) (functionExports : List Stmt) (needsRest : Bool) :
    List Stmt :=
  let context := Expr.ofName s.context
  (if s.options.emitUseStrict then [.expr (.ofString "use strict")] else [])
    ++ frame.variableStmt?.toList
    ++ (if s.options.emitModuleNameBinding then
        [.varInit "__moduleName" (some (.binary .and context (context.dot "id")))] else [])
    ++ frame.functions ++ functionExports
    ++ (if needsRest then [Rest.define] else [])

/-- The call that registers a module whose function has the given body. -/
def registration (s : Setting) (groups : List Dependency) (body : List Stmt) : Stmt :=
  let factory := Expr.functionOf none [.ofName s.exporter, .ofName s.context] body
  let names := Expr.arrayOf (groups.map (.ofString ·.name))
  .expr ((Expr.ofPath s.options.registerFunction).apply
    (s.file.moduleName.toList.map .ofString ++ [names, factory]))

/-- The lowered form of a module, once its statements are lowered. -/
def assemble (s : Setting) (groups : List Dependency) (execute : List Stmt) (p : Progress) :
    Lowered :=
  let (frame, h) := p.hoisting.pop
  let (star, starStmts, h) := StarExport.define s p.exportedNames groups h
  let (setters, _) := s.setters star groups h
  let result := Expr.object
    [.ofName "setters" (.arrayOf setters), .ofName "execute" (.functionOf none [] execute)]
  let body := s.prologue frame p.functionExports p.needsRest ++ starStmts ++ [.ret (some result)]
  ⟨groups.map (·.name), groups.length, s.registration groups body⟩

end Setting

/-- What lasts as long as one file is being lowered. -/
structure FileState where
  name : String
  /-- The parameter that publishes a value under a name. -/
  exporter : String
  /-- The parameter that describes the module at run time. -/
  context : String
  /-- The names left to give out. -/
  hoisting : Hoisting
  exportedNames : List String := []
  functionExports : List Stmt := []

/-- A file just taken up, with names for the parameters of its function. -/
def FileState.ofFile (file : SourceFile) : FileState :=
  let (exporter, h) := (Hoisting.ofFile file).unique "exports"
  let (context, h) := h.unique "context"
  { name := file.name, exporter, context, hoisting := h }

/-- The setting of a file that was taken up, and the names left to give out. -/
def Setting.ofState (options : Options) (names : NameTable) (file : SourceFile)
    (state : FileState) : Setting × Hoisting :=
  let interface := Interface.ofFile names file
  let (holders, h) := holdersOf interface.dependences state.hoisting.push
  (⟨options, file, names, interface, state.exporter, state.context, holders⟩, h)

/-- Lowers a file that was taken up, with names resolved by the given table. -/
def lowerFrom (options : Options) (names : NameTable) (file : SourceFile) (state : FileState) :
    Except LowerError Lowered := do
  let (s, hoisting) := Setting.ofState options names file state
  let groups ← Dependency.group file s.interface.dependences
  let (execute, p) ← (lowerStmts s .topLevel file.statements).run
    { hoisting, exportedNames := state.exportedNames, functionExports := state.functionExports }
  return s.assemble groups execute p

/-- The setting of a file, and the names left to give out. -/
def Setting.ofFile (options : Options) (names : NameTable) (file : SourceFile) :
    Setting × Hoisting :=
  ofState options names file (.ofFile file)

/-- Lowers a file whose names are resolved by the given table. -/
def lower (options : Options) (names : NameTable) (file : SourceFile) :
    Except LowerError Lowered :=
  lowerFrom options names file (.ofFile file)

/-- A file just taken up has exported nothing. -/
theorem lower_eq (options : Options) (names : NameTable) (file : SourceFile) :
    lower options names file = (do
      let (s, hoisting) := Setting.ofFile options names file
      let groups ← Dependency.group file s.interface.dependences
      let (execute, p) ← (lowerStmts s .topLevel file.statements).run { hoisting }
      return s.assemble groups execute p) := rfl

end RegisterForm
