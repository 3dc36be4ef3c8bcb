import RegisterForm.Proofs.Run.Scoped
import RegisterForm.Proofs.Script.Node
/-!
# What lowered reads and writes do

A module is run among the values that other modules export. As it stands, it reads them by its own
names; lowered, off the holders of the modules. A lowered write is the write and then the calls that
publish it.
-/
namespace RegisterForm

/-- What the module of an import statement gives after some writes: itself, or what it exports under
a name. -/
abbrev ForeignValues := List Event → NodeId → Option String → Value

/-- What a module sees as it stands. -/
def SourceFile.linkage (file : SourceFile) (env : ForeignValues) : Linkage where
  outer := file.variableNames
  foreign
    | writes, x, none =>
      (file.imported? x).map fun origin => env writes origin.declaration origin.kind.property?
    | _, _, some _ => none

namespace Setting
variable {s : Setting} {env : ForeignValues} {l' : Linkage} {scopes : List (List String)} {x : Ident}

/-- The names under which the variables of the module are published. -/
def publicNames (s : Setting) (x : String) : List String :=
  ((s.file.binding? x).map fun b => s.exportNames b.ident).getD []

/-- The names of the module are declared once, its imports have holders, and the lowered module is
run among its variables and the modules in these holders. -/
structure Linked (s : Setting) (env : ForeignValues) (l' : Linkage) : Prop where
  flat : s.file.IsFlat
  once : (s.file.bindings.map (·.ident.name)).Nodup
  imports : s.HoldsImports
  outer : s.file.variableNames ⊆ l'.outer
  exporter : l'.exporter = some s.exporter
  /-- A holder gives the module that it holds. -/
  held : ∀ {d holder}, s.holders.lookup d = some holder →
    ∀ writes property, l'.foreign writes holder property = some (env writes d property)
  /-- A variable holds no module. -/
  own : ∀ x ∈ s.file.variableNames, ∀ writes, l'.foreign writes x none = none

/-! ## Reads -/

theorem eval_importedProperty (l : Linkage) (holder name : String) :
    (s.importedProperty holder name).eval l = l.readForeign holder (some name) := by
  unfold importedProperty
  split <;> rfl

theorem importOf?_of_variable (hl : s.Linked env l') (ht : s.Tells scopes x)
    (hx : s.file.isVariable scopes x = true) : s.names.importOf? x = none := by
  by_cases hin : x.name ∈ scopes.flatten
  · exact (ht.inner hin).1
  · obtain ⟨b, hb, hname, himport⟩ :=
      SourceFile.mem_variableNames ((of_decide_eq_true hx).resolve_left hin)
    have hfound := SourceFile.binding?_eq hl.once hb
    rw [hname] at hfound
    rw [(ht.outer hin b hfound).1, SourceFile.importOrigin?_of_variable hl.flat hb himport]

theorem read_of_variable (hl : s.Linked env l') (ht : s.Tells scopes x)
    (hx : s.file.isVariable scopes x = true) : s.read x = .ident x := by
  rw [read, importOf?_of_variable hl ht hx]

theorem imported?_of_variable (hl : s.Linked env l') {name : String}
    (h : name ∈ s.file.variableNames) : s.file.imported? name = none := by
  obtain ⟨b, hb, rfl, himport⟩ := SourceFile.mem_variableNames h
  rw [SourceFile.imported?, SourceFile.binding?_eq hl.once hb, Option.bind_some,
    SourceFile.importOrigin?_of_variable hl.flat hb himport]

theorem agrees_variable (hl : s.Linked env l') (hx : s.file.isVariable scopes x = true) :
    Agrees s.publicNames scopes (fun v v' => v' = v) ((s.file.linkage env).read x.name)
      (l'.read x.name) := by
  have hscope : x.name ∈ scopes.flatten ∨ x.name ∈ (s.file.linkage env).outer := of_decide_eq_true hx
  refine agrees_read hscope hl.outer fun hvariable w => ⟨?_, hl.own _ hvariable w⟩
  simp [SourceFile.linkage, imported?_of_variable hl hvariable]

theorem eval_ident (hx : x.id.isSynthetic = false) (l : Linkage) :
    (Expr.ident x).eval l = l.read x.name := if_neg (by simp [hx])

section imported
variable {origin : ImportOrigin} {holder : String} (himport : s.names.importOf? x = some origin)
  (hholder : s.holders.lookup origin.declaration = some holder)
include himport hholder

theorem read_of_property {name : String} (h : origin.kind.property? = some name) :
    s.read x = s.importedProperty holder name := by
  obtain ⟨declaration, kind⟩ := origin
  cases kind <;> cases h <;> simp only [read, himport, hholder]

theorem read_of_whole (h : origin.kind.property? = none) :
    s.read x = if holder = x.name then .ident x else .ofName holder := by
  obtain ⟨declaration, kind⟩ := origin
  cases kind <;> cases h <;> simp only [read, himport, hholder]

end imported

/-- A variable is read by its name, and an import off the holder of its module. -/
theorem agrees_ident (hl : s.Linked env l') (ht : s.Tells scopes x)
    (hx : s.file.isReadable scopes x = true) :
    Agrees s.publicNames scopes (fun v v' => v' = v) ((Expr.ident x).eval (s.file.linkage env))
      ((s.read x).eval l') := by
  rw [eval_ident ht.real]
  by_cases hvariable : s.file.isVariable scopes x = true
  · rw [read_of_variable hl ht hvariable, eval_ident ht.real]
    exact agrees_variable hl hvariable
  · have hnot : x.name ∉ scopes.flatten ∧ x.name ∉ s.file.variableNames := by
      simpa [SourceFile.isVariable] using hvariable
    have himported : (s.file.imported? x.name).isSome = true := by
      simpa [SourceFile.isReadable, hvariable] using hx
    obtain ⟨origin, horigin⟩ := Option.isSome_iff_exists.mp himported
    obtain ⟨b, hb, hb'⟩ := Option.bind_eq_some_iff.mp horigin
    have himport : s.names.importOf? x = some origin := (ht.outer hnot.1 b hb).1.trans hb'
    obtain ⟨holder, hholder⟩ := Option.isSome_iff_exists.mp (hl.imports x origin himport)
    have hforeign : ∀ w, (s.file.linkage env).foreign w x.name none =
        some (env w origin.declaration origin.kind.property?) := fun w => by
      simp [SourceFile.linkage, horigin]
    have hheld := fun w => hl.held hholder w origin.kind.property?
    cases hproperty : origin.kind.property? with
    | some name =>
      rw [hproperty] at hforeign hheld
      rw [read_of_property himport hholder hproperty, eval_importedProperty]
      exact agrees_readForeign hnot.1 hforeign hheld
    | none =>
      rw [hproperty] at hforeign hheld
      rw [read_of_whole himport hholder hproperty]
      split
      · next hown =>
        rw [eval_ident ht.real]
        exact agrees_read_foreign hnot.1 hforeign (hown ▸ hheld)
      · exact agrees_readForeign hnot.1 hforeign hheld

/-! ## Writes -/

theorem exportNames_of_variable (hl : s.Linked env l') (ht : s.Tells scopes x)
    (hx : s.file.isVariable scopes x = true) :
    s.exportNames x = namesAt s.publicNames scopes x.name := by
  unfold namesAt
  by_cases hin : x.name ∈ scopes.flatten
  · rw [if_pos hin, (ht.inner hin).2]
  · obtain ⟨b, hb, hname, -⟩ :=
      SourceFile.mem_variableNames ((of_decide_eq_true hx).resolve_left hin)
    have hfound := SourceFile.binding?_eq hl.once hb
    rw [hname] at hfound
    rw [if_neg hin, (ht.outer hin b hfound).2]
    simp [publicNames, hfound]

/-- A write to a variable, and the lowered write. -/
theorem agrees_written (hl : s.Linked env l') (ht : s.Tells scopes x)
    (hx : s.file.isVariable scopes x = true) (v : Value) :
    Agrees s.publicNames scopes (fun _ _ => True) ((s.file.linkage env).write x.name v)
      (l'.writeOut (s.exportNames x) x.name v) := by
  have hscope : x.name ∈ scopes.flatten ∨ x.name ∈ s.file.variableNames := of_decide_eq_true hx
  rw [exportNames_of_variable hl ht hx]
  exact agrees_write hscope hl.outer v

/-- The operator that undoes an update leads back to the value before, as a number. -/
theorem compute?_undo (op : UpdateOp) (v : Value) :
    (undo op).compute? (op.apply v) (.int 1) = some v.number := by
  cases op <;> cases v <;>
    simp [undo, UpdateOp.apply, BinaryOp.compute?, Value.add, Value.sub, Value.calculate,
      Value.number, Value.number?, Value.ofNumber?]

section published
variable {l : Linkage} (hexporter : l.exporter = some s.exporter)
include hexporter

theorem eval_publish (name : String) (value : Expr) :
    (s.publish name value).eval l = (do
      let v ← value.eval l
      Run.publish name v
      return v) :=
  if_pos ⟨rfl, hexporter.symm⟩

theorem eval_publishAll (names : List String) (value : Expr) :
    (names.foldl (fun value name => s.publish name value) value).eval l = (do
      let v ← value.eval l
      Run.publishAll names v
      return v) := by
  induction names generalizing value with
  | nil => simp [Run.publishAll]
  | cons name names ih =>
    rw [List.foldl_cons, ih, eval_publish hexporter]
    simp [Run.publishAll]

theorem eval_published (x : Ident) (value : Expr) :
    (s.published x value).eval l = (do
      let v ← value.eval l
      Run.publishAll (s.exportNames x) v
      return v) := eval_publishAll hexporter _ value

/-- A published assignment is an assignment that publishes what it writes. -/
theorem eval_published_assign {target : Pattern} (htarget : target.ident? = some x) (op : AssignOp)
    (value : Expr) :
    (s.published x (.assign op target value)).eval l =
      Run.assign op (l.read x.name) (value.eval l) (l.writeOut (s.exportNames x) x.name) := by
  have heval : (Expr.assign op target value).eval l =
      Run.assign op (l.read x.name) (value.eval l) (l.write x.name) := by
    rw [Expr.eval_assign, htarget]
  rw [eval_published hexporter, heval]
  unfold Run.assign Linkage.writeOut
  cases op.binary? with
  | some binary => simp
  | none =>
    dsimp only
    split <;> simp
    rfl

theorem eval_published_update (op : UpdateOp) :
    (s.published x (.update op true (.ident x))).eval l =
      Run.update op true (l.read x.name) (l.writeOut (s.exportNames x) x.name) := by
  have heval : (Expr.update op true (.ident x)).eval l =
      Run.update op true (l.read x.name) (l.write x.name) := rfl
  rw [eval_published hexporter, heval]
  simp [Run.update, Linkage.writeOut]

theorem eval_undone_update (op : UpdateOp) :
    (Expr.binary (undo op) (s.published x (.update op true (.ident x))) (.ofNumber "1")).eval l =
      Run.update op false (l.read x.name) (l.writeOut (s.exportNames x) x.name) := by
  have hone : (Expr.ofNumber "1").eval l = (pure (.int 1) : Run Value) := rfl
  rw [Expr.eval_binary, eval_published_update hexporter, hone]
  simp only [Run.update, bind_assoc, pure_bind, if_true, compute?_undo]
  rfl

end published

/-- An update that is published after it has the value that it had before, where that is used. -/
theorem agrees_publishedUpdate (hl : s.Linked env l') (ht : s.Tells scopes x)
    (hx : s.file.isVariable scopes x = true) {op : UpdateOp} {isPrefix isUsed : Bool}
    {arg e : Expr} (harg : arg.skipParens = .ident x)
    (h : s.publishedUpdate? op isPrefix isUsed arg = some e) :
    Agrees s.publicNames scopes (fun v v' => isUsed = true → v' = v)
      ((Expr.update op isPrefix arg).eval (s.file.linkage env)) (e.eval l') := by
  have hread := agrees_variable hl hx
  have hwrite := agrees_written hl ht hx
  have heval : (Expr.update op isPrefix arg).eval (s.file.linkage env) =
      Run.update op isPrefix ((s.file.linkage env).read x.name)
        ((s.file.linkage env).write x.name) := by
    rw [Expr.eval_update, harg]
    rfl
  rw [heval]
  rw [publishedUpdate?, harg] at h
  dsimp only at h
  split at h
  · cases h
  · split at h <;> cases h
    · next hunused =>
      rw [eval_published_update hl.exporter]
      refine (agrees_update hread hwrite).mono fun v v' heq hused => heq ?_
      simpa [hused, eq_comm] using hunused
    · next hused =>
      rw [eval_undone_update hl.exporter]
      refine (agrees_update hread hwrite).mono fun v v' heq _ => heq ?_
      simp only [Bool.or_eq_true, not_or] at hused
      simpa [eq_comm] using hused.1

end Setting
end RegisterForm
