import RegisterForm.Proofs.Export.Publication
import RegisterForm.Proofs.Tree.Parts
/-!
# Published trees

In a lowered expression every write to an identifier, however deep, is what the calls of the
exporter for the names of the identifier surround, and there are no other such calls.
-/
namespace RegisterForm
open Lowering

/-- The identifier that an expression writes as a whole. -/
def Expr.written? : Expr → Option Ident
  | .assign _ target _ => target.ident?
  | .update _ _ arg => arg.skipParens.ident?
  | _ => none

/-- What an expression calls. -/
def Expr.callee? : Expr → Option Expr
  | .call callee _ _ => some callee
  | _ => none

/-- Every write is published under the names of its identifier, and nothing else is published. A
call of an import is the module's own call, whatever name the variable for the import has. -/
inductive Setting.Published (s : Setting) : Expr → Prop
  | write {e core : Expr} {x : Ident} (hpeel : e.peel s.exporter = (s.exportNames x, core))
    (hx : core.written? = some x) (hparts : ∀ part ∈ core.parts, s.Published part) : s.Published e
  | other {e : Expr} (hcall : e.callee? ≠ some (.ofName s.exporter)) (hx : e.written? = none)
    (hparts : ∀ part ∈ e.parts, s.Published part) : s.Published e
  | imported {e : Expr} {x : Ident} (hcall : e.callee? = some (s.read x))
    (hx : (s.names.importOf? x).isSome = true)
    (hparts : ∀ part ∈ e.parts, s.Published part) : s.Published e

/-- Outside functions, a statement may publish a value on its own. -/
def Setting.PublishedAt (s : Setting) (place : Place) (e : Expr) : Prop :=
  s.Published e ∨
    place ≠ .function ∧ ∃ name value, e = s.publish name value ∧ s.Published value

def Setting.AllPublished (s : Setting) (es : List Expr) : Prop := ∀ e ∈ es, s.Published e

def Setting.AllPublishedAt (s : Setting) (place : Place) (es : List Expr) : Prop :=
  ∀ e ∈ es, s.PublishedAt place e

namespace Setting
variable {s : Setting} {place : Place}

section lists
variable {es fs : List Expr} {e : Expr}

@[simp] theorem allPublished_nil : s.AllPublished [] := List.forall_mem_nil _

@[simp] theorem allPublished_cons : s.AllPublished (e :: es) ↔ s.Published e ∧ s.AllPublished es :=
  List.forall_mem_cons

@[simp] theorem allPublished_append :
    s.AllPublished (es ++ fs) ↔ s.AllPublished es ∧ s.AllPublished fs := List.forall_mem_append

@[simp] theorem allPublishedAt_nil : s.AllPublishedAt place [] := List.forall_mem_nil _

@[simp] theorem allPublishedAt_cons :
    s.AllPublishedAt place (e :: es) ↔ s.PublishedAt place e ∧ s.AllPublishedAt place es :=
  List.forall_mem_cons

@[simp] theorem allPublishedAt_append :
    s.AllPublishedAt place (es ++ fs) ↔ s.AllPublishedAt place es ∧ s.AllPublishedAt place fs :=
  List.forall_mem_append

theorem Published.at (h : s.Published e) : s.PublishedAt place e := .inl h

theorem AllPublished.at (h : s.AllPublished es) : s.AllPublishedAt place es := fun e he => (h e he).at

theorem AllPublishedAt.of_function (h : s.AllPublishedAt .function es) : s.AllPublished es :=
  fun e he => (h e he).resolve_right fun h => h.1 rfl

theorem AllPublished.append (h : s.AllPublished es) (h' : s.AllPublished fs) :
    s.AllPublished (es ++ fs) := allPublished_append.mpr ⟨h, h'⟩

theorem AllPublished.cons (he : s.Published e) (h : s.AllPublished es) : s.AllPublished (e :: es) :=
  allPublished_cons.mpr ⟨he, h⟩

theorem AllPublished.one (he : s.Published e) : s.AllPublished [e] := .cons he allPublished_nil

theorem AllPublishedAt.append (h : s.AllPublishedAt place es) (h' : s.AllPublishedAt place fs) :
    s.AllPublishedAt place (es ++ fs) := allPublishedAt_append.mpr ⟨h, h'⟩

theorem AllPublishedAt.cons (he : s.PublishedAt place e) (h : s.AllPublishedAt place es) :
    s.AllPublishedAt place (e :: es) := allPublishedAt_cons.mpr ⟨he, h⟩

theorem AllPublishedAt.one (he : s.PublishedAt place e) : s.AllPublishedAt place [e] :=
  .cons he allPublishedAt_nil

/-- A statement on its own. -/
theorem AllPublishedAt.stmt {st : Stmt} (h : s.AllPublishedAt place st.exprs) :
    s.AllPublishedAt place (stmtsExprs [st]) := .append h allPublishedAt_nil

theorem AllPublished.stmts_append {sts sts' : List Stmt} (h : s.AllPublished (stmtsExprs sts))
    (h' : s.AllPublished (stmtsExprs sts')) : s.AllPublished (stmtsExprs (sts ++ sts')) := by
  rw [stmtsExprs_append]
  exact .append h h'

theorem AllPublishedAt.stmts_append {sts sts' : List Stmt}
    (h : s.AllPublishedAt place (stmtsExprs sts)) (h' : s.AllPublishedAt place (stmtsExprs sts')) :
    s.AllPublishedAt place (stmtsExprs (sts ++ sts')) := by
  rw [stmtsExprs_append]
  exact .append h h'

theorem AllPublishedAt.ofList {body : List Stmt} (h : s.AllPublishedAt place (stmtsExprs body)) :
    s.AllPublishedAt place (Stmt.ofList body).exprs := by rwa [exprs_ofList]

/-- The statements inside a statement of some place publish what statements of the place may. -/
theorem AllPublishedAt.of_inner (h : s.AllPublishedAt place.inner es) : s.AllPublishedAt place es :=
  fun e he => (h e he).imp_right fun ⟨hp, hv⟩ => ⟨by rintro rfl; exact hp rfl, hv⟩

end lists

/-! ## Made expressions -/

attribute [local simp] Expr.parts Pattern.exprs

theorem exportNames_synthetic (name : String) : s.exportNames (.synthetic name) = [] := by
  simp [exportNames, Ident.synthetic, NodeId.isSynthetic]

/-- Of a node that calls and writes nothing only the parts matter. -/
theorem published_of_parts {e : Expr} (hparts : s.AllPublished e.parts) (hcall : e.callee? = none)
    (hx : e.written? = none) : s.Published e := .other (by rw [hcall]; nofun) hx hparts

theorem published_ident (x : Ident) : s.Published (.ident x) :=
  published_of_parts allPublished_nil rfl rfl

theorem published_literal (value : Literal) : s.Published (.literal value) :=
  published_of_parts allPublished_nil rfl rfl

theorem published_dot {owner : Expr} {name : String} (h : s.Published owner) :
    s.Published (owner.dot name) :=
  published_of_parts (by simpa [Expr.dot] using h) rfl rfl

theorem published_lookup {owner key : Expr} (h : s.Published owner) (hkey : s.Published key) :
    s.Published (owner.lookup key) :=
  published_of_parts (by simpa [Expr.lookup] using ⟨h, hkey⟩) rfl rfl

theorem published_read (x : Ident) : s.Published (s.read x) := by
  unfold read importedProperty
  repeat' split
  all_goals first
    | exact published_ident _
    | exact published_dot (published_ident _)
    | exact published_lookup (published_ident _) (published_literal _)

/-- A write and the calls for its names. -/
theorem published_published {x : Ident} {core : Expr} (hpeel : core.peel s.exporter = ([], core))
    (hx : core.written? = some x) (hparts : s.AllPublished core.parts) :
    s.Published (s.published x core) := .write (peel_published x hpeel) hx hparts

theorem published_bindingAssignment (x : Ident) {value : Expr} (h : s.Published value) :
    s.Published (s.bindingAssignment x value) :=
  published_published rfl rfl (by simpa [Expr.assignTo] using h)

theorem published_assignName (name : String) {value : Expr} (h : s.Published value) :
    s.Published (.assignName name value) := by
  have hpeel : (Expr.assignName name value).peel s.exporter =
      (s.exportNames (.synthetic name), .assignName name value) := by
    rw [exportNames_synthetic]
    rfl
  exact .write hpeel rfl
    (by simpa [Expr.assignName, Expr.assignTo] using h)

theorem published_assignTo {target value : Expr} (htarget : s.Published target)
    (h : s.Published value) : s.Published (.assignTo (.expr target) value) :=
  published_of_parts (by simpa [Expr.assignTo] using ⟨htarget, h⟩) rfl rfl

/-- An assignment whose target keeps its shape. -/
theorem published_publishedTo {op : AssignOp} {target : Pattern} {value : Expr}
    (htarget : s.AllPublished target.exprs) (h : s.Published value) :
    s.Published (s.publishedTo target (.assign op target value)) := by
  have hparts : s.AllPublished (Expr.assign op target value).parts := by
    simpa using ⟨htarget, h⟩
  unfold publishedTo
  split
  · next x hx => exact published_published rfl hx hparts
  · next hx => exact published_of_parts hparts rfl hx

theorem published_sequence {es : List Expr} (h : s.AllPublished es) : s.Published (.sequence es) :=
  published_of_parts h rfl rfl

theorem published_ofList {es : List Expr} {e : Expr} (h : s.AllPublished es)
    (he : Expr.ofList es = some e) : s.Published e := by
  match es, he with
  | [_], rfl => simpa using h
  | _ :: _ :: _, rfl => exact published_sequence h

theorem published_getD_ofList {es : List Expr} {value : Expr} (h : s.AllPublished es)
    (hvalue : s.Published value) : s.Published ((Expr.ofList es).getD value) := by
  cases he : Expr.ofList es with
  | none => exact hvalue
  | some e => exact published_ofList h he

theorem published_orFallback {value fallback : Expr} (h : s.Published value)
    (hfallback : s.Published fallback) : s.Published (orFallback value fallback) := by
  have hzero : s.Published .voidZero :=
    published_of_parts (by simpa [Expr.voidZero, Expr.ofNumber] using published_literal _) rfl rfl
  have htest : s.Published (.binary .strictEq value .voidZero) :=
    published_of_parts (by simpa using ⟨h, hzero⟩) rfl rfl
  exact published_of_parts (by simpa [orFallback] using ⟨htest, hfallback, h⟩) rfl rfl

theorem published_propertyKey {key : Expr} (h : s.Published key) : s.Published (propertyKey key) := by
  have htype : s.Published (.unary .typeOf key) :=
    published_of_parts (by simpa using h) rfl rfl
  have htest : s.Published (.binary .strictEq (.unary .typeOf key) (.ofString "symbol")) :=
    published_of_parts (by simpa using ⟨htype, published_literal _⟩) rfl rfl
  have htext : s.Published (.binary .add key (.ofString "")) :=
    published_of_parts (by simpa using ⟨h, published_literal _⟩) rfl rfl
  exact published_of_parts (by simpa [propertyKey] using ⟨htest, h, htext⟩) rfl rfl

theorem published_restSlice {value : Expr} (index : Nat) (h : s.Published value) :
    s.Published (restSlice value index) := by
  refine .other nofun rfl ?_
  simpa [restSlice, Expr.apply] using ⟨published_dot h, published_literal _⟩

theorem published_restCall {value : Expr} {keys : List Expr} (hrest : s.exporter ≠ restName)
    (h : s.Published value) (hkeys : s.AllPublished keys) : s.Published (restCall value keys) := by
  have harray : s.Published (.arrayOf keys) := by
    refine published_of_parts ?_ rfl rfl
    simpa [Expr.arrayOf, List.flatMap_map] using hkeys
  refine .other ?_ rfl ?_
  · simpa [restCall, Expr.apply, Expr.callee?, Expr.ofName, Ident.synthetic] using Ne.symm hrest
  · simpa [restCall, Expr.apply] using ⟨published_ident _, h, harray⟩

/-- An update of an exported identifier, with the step back after it if the old value is used. -/
theorem published_publishedUpdate? {op : UpdateOp} {isPrefix isUsed : Bool} {arg e : Expr}
    (h : s.publishedUpdate? op isPrefix isUsed arg = some e) : s.Published e := by
  have hupdated : ∀ x, s.Published (s.published x (.update op true (.ident x))) := fun x =>
    published_published rfl rfl (by simpa using published_ident x)
  unfold publishedUpdate? at h
  split at h
  · next x _ =>
    split at h
    · cases h
    · split at h <;> cases h
      · exact hupdated x
      · refine published_of_parts ?_ rfl rfl
        simpa using ⟨hupdated x, published_literal _⟩
  · cases h

end Setting
end RegisterForm
