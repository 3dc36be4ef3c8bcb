import RegisterForm.Proofs.Export.Initial
import RegisterForm.Proofs.Fresh.Lowered
import RegisterForm.Proofs.Fresh.Scoped
/-!
# Allowances

What lowering a tree may do outside the tree: declare variables for the function around it, and
publish values under names. A lowered tree keeps to an allowance if every call of the exporter in
it publishes under allowed names, which the call has to write out.
-/
namespace RegisterForm
open Lowering Vocabulary

/-- The variables that may be declared for a function from inside its body, the identifiers that may
be assigned, and the names under which values may be published. -/
structure Allowance where
  hoists : String → Prop
  assigns : Ident → Prop
  publishes : String → Prop

/-! ## Calls of the exporter -/

/-- The text of a property's key, if it is written as a string. -/
def Property.stringKey? : Property → Option String
  | .keyed (.string text) _ => some text
  | _ => none

/-- The names under which the arguments of a call of the exporter publish: a name with its value,
or the keys of an object. -/
def publishedNames? : List Expr → Option (List String)
  | [.literal (.string name), _] => some [name]
  | [.object properties] => properties.mapM Property.stringKey?
  | _ => none

/-- An expression calls the exporter. A call of an import is the module's own call, whatever name
the variable for the import has. -/
def Setting.CallsExporter (s : Setting) (e : Expr) (args : List Expr) : Prop :=
  (∃ callee isOptional, e = .call callee args isOptional ∧
    callee.skipParens = .ofName s.exporter) ∧
  ∀ x, (s.names.importOf? x).isSome = true → s.read x ≠ .ofName s.exporter

/-- Unless a variable for an import has the exporter's name, these are all calls of that name. -/
theorem Setting.callsExporter_iff {s : Setting}
    (hholders : ∀ entry ∈ s.holders, entry.2 ≠ s.exporter) {e : Expr} {args : List Expr} :
    s.CallsExporter e args ↔ ∃ callee isOptional,
      e = .call callee args isOptional ∧ callee.skipParens = .ofName s.exporter := by
  refine and_iff_left fun x hx => ?_
  refine read_ne_exporter (Bool.eq_false_iff.mpr fun hsynthetic => ?_) hholders
  rw [NameTable.importOf?, NameTable.symbolOf?, hsynthetic] at hx
  cases hx

/-- A node that calls the exporter publishes only under certain names. -/
def Visit.Announces (s : Setting) (N : String → Prop) : Visit → Prop
  | .expr e => ∀ args, s.CallsExporter e args →
      ∃ names, publishedNames? args = some names ∧ ∀ name ∈ names, N name
  | _ => True

theorem Visit.Announces.mono {s : Setting} {N N' : String → Prop} {v : Visit} (h : v.Announces s N)
    (hN : ∀ name, N name → N' name) : v.Announces s N' := by
  cases v with
  | expr e =>
    intro args hcalls
    obtain ⟨names, hnames, hall⟩ := h args hcalls
    exact ⟨names, hnames, fun name hname => hN name (hall name hname)⟩
  | _ => exact trivial

/-- All calls of the exporter publish under allowed names. -/
def Setting.Keeps (s : Setting) (A : Allowance) (vs : List Visit) : Prop :=
  ∀ v ∈ vs, v.Announces s A.publishes

/-- The identifiers that a node assigns; its parts are visited on their own. -/
def Visit.assigned : Visit → List Ident
  | .pattern p => p.ownTargets
  | .expr (.update _ _ arg) => arg.skipParens.ident?.toList
  | _ => []

mutual

/-- What a pattern binds is assigned in it. -/
theorem Pattern.boundIdents_assigned : (p : Pattern) →
    p.boundIdents ⊆ p.visits.flatMap Visit.assigned
  | .ident x => by simp [Pattern.boundIdents, Pattern.visits, Visit.assigned, Pattern.ownTargets]
  | .expr e => by simp [Pattern.boundIdents]
  | .object properties rest => by
    intro x hx
    simp only [Pattern.visits, List.flatMap_cons, List.flatMap_append, List.mem_append]
    rcases List.mem_append.mp hx with hx | hx
    · exact (List.mem_append.mp (propertyIdents_assigned properties hx)).imp_right .inl
    · exact .inr (.inr (restIdents_assigned rest hx))
  | .array elements rest => by
    intro x hx
    simp only [Pattern.visits, List.flatMap_cons, List.flatMap_append, List.mem_append]
    rcases List.mem_append.mp hx with hx | hx
    · exact .inr (.inl (elementIdents_assigned elements hx))
    · exact .inr (.inr (restIdents_assigned rest hx))

/-- What a property names only, its pattern assigns itself. -/
theorem propertyIdents_assigned : (ps : List PatternProperty) →
    propertyIdents ps ⊆ ps.filterMap PatternProperty.shorthand? ++
      (patternPropertiesVisits ps).flatMap Visit.assigned
  | [] => List.nil_subset _
  | .keyed key target fallback :: ps => by
    intro x hx
    simp only [patternPropertiesVisits, PatternProperty.visits, List.flatMap_append,
      List.mem_append]
    rcases List.mem_append.mp hx with hx | hx
    · exact .inr (.inl (.inl (.inr (target.boundIdents_assigned hx))))
    · exact (List.mem_append.mp (propertyIdents_assigned ps hx)).imp_right .inr
  | .shorthand y fallback :: ps => by
    intro x hx
    simp only [patternPropertiesVisits, List.flatMap_append, List.mem_append]
    rcases List.mem_append.mp hx with hx | hx
    · exact .inl (List.mem_singleton.mp hx ▸ .head _)
    · exact (List.mem_append.mp (propertyIdents_assigned ps hx)).imp (.tail _) .inr

theorem elementIdents_assigned : (es : List (Option PatternElement)) →
    elementIdents es ⊆ (patternSlotsVisits es).flatMap Visit.assigned
  | [] => List.nil_subset _
  | none :: es => elementIdents_assigned es
  | some ⟨target, fallback⟩ :: es => by
    intro x hx
    simp only [patternSlotsVisits, patternSlotVisits, PatternElement.visits, List.flatMap_append,
      List.mem_append]
    exact (List.mem_append.mp hx).imp (fun hx => .inl (target.boundIdents_assigned hx))
      fun hx => elementIdents_assigned es hx

theorem restIdents_assigned : (p : Option Pattern) →
    restIdents p ⊆ (patternVisits? p).flatMap Visit.assigned
  | none => List.nil_subset _
  | some p => p.boundIdents_assigned

end

/-- The vocabulary whose variables may all be hoisted. -/
def Allowance.variables (A : Allowance) : Vocabulary where
  mentions _ := True
  binds x := A.hoists x.name
  calls _ := True

/-- A node of the source asks for no more than what is allowed: it assigns nothing else, an
identifier that may be assigned is published under allowed names only, and what is called is not
the exporter. -/
structure Setting.Allows (s : Setting) (A : Allowance) (v : Visit) : Prop where
  assigned : ∀ x ∈ v.assigned, A.assigns x
  names : ∀ x, v.ident? = some x → A.assigns x → ∀ name ∈ s.exportNames x, A.publishes name
  calls : v.called? ≠ some (.synthetic s.exporter)

def Setting.AllowsAll (s : Setting) (A : Allowance) (vs : List Visit) : Prop :=
  ∀ v ∈ vs, s.Allows A v

namespace Setting
variable {s : Setting} {A : Allowance}

section lists
variable {vs ws : List Visit} {v : Visit}

@[simp] theorem allowsAll_append : s.AllowsAll A (vs ++ ws) ↔ s.AllowsAll A vs ∧ s.AllowsAll A ws :=
  List.forall_mem_append

@[simp] theorem allowsAll_cons : s.AllowsAll A (v :: vs) ↔ s.Allows A v ∧ s.AllowsAll A vs :=
  List.forall_mem_cons

namespace AllowsAll

theorem head (h : s.AllowsAll A (v :: vs)) : s.Allows A v := (allowsAll_cons.mp h).1

theorem tail (h : s.AllowsAll A (v :: vs)) : s.AllowsAll A vs := (allowsAll_cons.mp h).2

theorem left (h : s.AllowsAll A (vs ++ ws)) : s.AllowsAll A vs := (allowsAll_append.mp h).1

theorem right (h : s.AllowsAll A (vs ++ ws)) : s.AllowsAll A ws := (allowsAll_append.mp h).2

end AllowsAll

/-- The source itself does not call the exporter. -/
theorem AllowsAll.keeps (h : s.AllowsAll A vs) : s.Keeps A vs := by
  intro v hv
  cases v with
  | expr e =>
    rintro args ⟨⟨callee, isOptional, rfl, hcallee⟩, -⟩
    refine absurd ?_ (h _ hv).calls
    simp [Visit.called?, Expr.called?, hcallee, Expr.ofName, Expr.ident?]
  | _ => exact trivial

/-- An identifier that stands in a part and may be assigned has allowed names. -/
theorem AllowsAll.names (h : s.AllowsAll A vs) {x : Ident} (hx : x ∈ identsIn vs)
    (hassigned : A.assigns x) : ∀ name ∈ s.exportNames x, A.publishes name := by
  obtain ⟨v, hv, hident⟩ := List.mem_filterMap.mp hx
  exact (h v hv).names x hident hassigned

/-- What a pattern binds has allowed names. -/
theorem AllowsAll.bound {p : Pattern} (h : s.AllowsAll A p.visits) :
    ∀ x ∈ p.boundIdents, ∀ name ∈ s.exportNames x, A.publishes name := by
  intro x hx
  obtain ⟨v, hv, hassigned⟩ := List.mem_flatMap.mp (p.boundIdents_assigned hx)
  exact h.names (p.boundIdents_subset hx) ((h v hv).assigned x hassigned)

theorem AllowsAll.ident {p : Pattern} (h : s.AllowsAll A p.visits) :
    ∀ x, p.ident? = some x → ∀ name ∈ s.exportNames x, A.publishes name := by
  intro x hx
  cases p with
  | ident y =>
    obtain rfl := Option.some.inj hx
    exact h.bound y (List.mem_singleton_self y)
  | _ => cases hx

@[simp] theorem keeps_nil : s.Keeps A [] := List.forall_mem_nil _

@[simp] theorem keeps_append : s.Keeps A (vs ++ ws) ↔ s.Keeps A vs ∧ s.Keeps A ws :=
  List.forall_mem_append

@[simp] theorem keeps_cons :
    s.Keeps A (v :: vs) ↔ v.Announces s A.publishes ∧ s.Keeps A vs :=
  List.forall_mem_cons

namespace Keeps

theorem append (h : s.Keeps A vs) (h' : s.Keeps A ws) : s.Keeps A (vs ++ ws) :=
  keeps_append.mpr ⟨h, h'⟩

theorem cons (hv : v.Announces s A.publishes) (h : s.Keeps A vs) : s.Keeps A (v :: vs) :=
  keeps_cons.mpr ⟨hv, h⟩

/-- An expression that calls no identifier. -/
theorem expr {e : Expr} (he : e.called? = none) (h : s.Keeps A vs) : s.Keeps A (.expr e :: vs) := by
  refine .cons ?_ h
  rintro args ⟨⟨callee, isOptional, rfl, hcallee⟩, -⟩
  rw [Expr.called?, hcallee] at he
  cases he

/-- A statement on its own. -/
theorem one {st : Stmt} (h : s.Keeps A st.visits) : s.Keeps A (stmtsVisits [st]) :=
  .append h keeps_nil

/-- A statement that is an expression, on its own. -/
theorem exprStmt {e : Expr} (h : s.Keeps A e.visits) : s.Keeps A (stmtsVisits [.expr e]) :=
  .one (.cons trivial h)

/-- An expression on its own. -/
theorem oneExpr {e : Expr} (h : s.Keeps A e.visits) : s.Keeps A (exprsVisits [e]) :=
  .append h keeps_nil

theorem stmts {sts more : List Stmt} (h : s.Keeps A (stmtsVisits sts))
    (hmore : s.Keeps A (stmtsVisits more)) : s.Keeps A (stmtsVisits (sts ++ more)) := by
  rw [NameTable.stmtsVisits_append]
  exact h.append hmore

theorem exprs {es more : List Expr} (h : s.Keeps A (exprsVisits es))
    (hmore : s.Keeps A (exprsVisits more)) : s.Keeps A (exprsVisits (es ++ more)) := by
  rw [exprsVisits_append]
  exact h.append hmore

end Keeps

end lists

/-! ## Nodes -/

section nodes
variable {N : String → Prop}

@[simp] theorem announces_stmt (st : Stmt) : (Visit.stmt st).Announces s N := trivial

@[simp] theorem announces_pattern (p : Pattern) : (Visit.pattern p).Announces s N := trivial

@[simp] theorem announces_func (f : Func) : (Visit.func f).Announces s N := trivial

@[simp] theorem announces_classNode (c : Class) : (Visit.classNode c).Announces s N := trivial

@[simp] theorem announces_ident (x : Ident) : (Visit.ident x).Announces s N := trivial

@[simp] theorem announces_name (text : String) : (Visit.name text).Announces s N := trivial

@[simp] theorem announces_expr (e : Expr) : (Visit.expr e).Announces s N ↔
    ∀ args, s.CallsExporter e args →
      ∃ names, publishedNames? args = some names ∧ ∀ name ∈ names, N name := Iff.rfl

end nodes

theorem keeps_expr {e : Expr} {vs : List Visit} (he : e.called? = none) :
    s.Keeps A (.expr e :: vs) ↔ s.Keeps A vs :=
  ⟨fun h => (keeps_cons.mp h).2, .expr he⟩

@[simp] theorem keeps_identExpr (x : Ident) : s.Keeps A (Expr.ident x).visits :=
  .expr rfl (.cons trivial keeps_nil)

@[simp] theorem keeps_ofName (name : String) : s.Keeps A (Expr.ofName name).visits :=
  keeps_identExpr _

@[simp] theorem keeps_literal (value : Literal) : s.Keeps A (Expr.literal value).visits :=
  .expr rfl keeps_nil

@[simp] theorem keeps_ofString (text : String) : s.Keeps A (Expr.ofString text).visits :=
  keeps_literal _

@[simp] theorem keeps_ofNumber (source : String) : s.Keeps A (Expr.ofNumber source).visits :=
  keeps_literal _

@[simp] theorem keeps_dot (owner : Expr) (name : String) :
    s.Keeps A (owner.dot name).visits ↔ s.Keeps A owner.visits :=
  (keeps_expr rfl).trans (by simp)

@[simp] theorem keeps_lookup (owner key : Expr) :
    s.Keeps A (owner.lookup key).visits ↔ s.Keeps A owner.visits ∧ s.Keeps A key.visits :=
  (keeps_expr rfl).trans keeps_append

@[simp] theorem keeps_assignTo (target : Pattern) (value : Expr) :
    s.Keeps A (Expr.assignTo target value).visits ↔
      s.Keeps A target.visits ∧ s.Keeps A value.visits :=
  (keeps_expr rfl).trans keeps_append

@[simp] theorem keeps_identPattern (x : Ident) : s.Keeps A (Pattern.ident x).visits := by
  simp [Pattern.visits]

@[simp] theorem keeps_exprPattern (e : Expr) :
    s.Keeps A (Pattern.expr e).visits ↔ s.Keeps A e.visits := by
  simp [Pattern.visits]

/-- A call of another function than the exporter. -/
theorem keeps_call {callee : Expr} {args : List Expr} {isOptional : Bool}
    (hcallee : ¬ s.CallsExporter (.call callee args isOptional) args) :
    s.Keeps A (Expr.call callee args isOptional).visits ↔
      s.Keeps A callee.visits ∧ s.Keeps A (exprsVisits args) := by
  refine keeps_cons.trans ((and_iff_right fun args' hcalls => absurd ?_ hcallee).trans keeps_append)
  obtain ⟨⟨callee', isOptional', he, -⟩, -⟩ := id hcalls
  rwa [← (Expr.call.inj he).2.1] at hcalls

theorem not_callsExporter {callee : Expr} {args : List Expr} {isOptional : Bool}
    (h : callee.skipParens ≠ .ofName s.exporter) :
    ¬ s.CallsExporter (.call callee args isOptional) args := by
  rintro ⟨⟨callee', isOptional', he, hcallee⟩, -⟩
  exact h ((Expr.call.inj he).1 ▸ hcallee)

/-! ## Published values -/

theorem keeps_publish {name : String} {value : Expr} (hname : A.publishes name)
    (h : s.Keeps A value.visits) : s.Keeps A (s.publish name value).visits := by
  have hcall : (Visit.expr (s.publish name value)).Announces s A.publishes := by
    rintro args ⟨⟨callee, isOptional, he, -⟩, -⟩
    obtain rfl : [Expr.ofString name, value] = args := (Expr.call.inj he).2.1
    exact ⟨[name], rfl, by simpa using hname⟩
  exact .cons hcall (.append (keeps_ofName _) (.append (keeps_ofString _) (.oneExpr h)))

theorem keeps_published {x : Ident} {value : Expr} (hx : ∀ name ∈ s.exportNames x, A.publishes name)
    (h : s.Keeps A value.visits) : s.Keeps A (s.published x value).visits := by
  unfold published
  generalize s.exportNames x = names at *
  induction names generalizing value with
  | nil => exact h
  | cons name names ih =>
    obtain ⟨hname, hnames⟩ := List.forall_mem_cons.mp hx
    exact ih (keeps_publish hname h) hnames

theorem keeps_publishedTo {target : Pattern} {value : Expr}
    (hx : ∀ x, target.ident? = some x → ∀ name ∈ s.exportNames x, A.publishes name)
    (h : s.Keeps A value.visits) : s.Keeps A (s.publishedTo target value).visits := by
  unfold publishedTo
  split
  · next x hident => exact keeps_published (hx x hident) h
  · exact h

theorem keeps_bindingAssignment {x : Ident} {value : Expr}
    (hx : ∀ name ∈ s.exportNames x, A.publishes name) (h : s.Keeps A value.visits) :
    s.Keeps A (s.bindingAssignment x value).visits :=
  keeps_published hx (by simpa using h)

theorem keeps_publishedUpdate? {op : UpdateOp} {isPrefix isUsed : Bool} {arg e : Expr}
    (hx : ∀ x, arg.skipParens = .ident x → ∀ name ∈ s.exportNames x, A.publishes name)
    (h : s.publishedUpdate? op isPrefix isUsed arg = some e) : s.Keeps A e.visits := by
  unfold publishedUpdate? at h
  split at h
  · next x hident =>
    have hupdated : s.Keeps A (s.published x (.update op true (.ident x))).visits := by
      exact keeps_published (hx x hident) (.expr rfl (keeps_identExpr x))
    split at h
    · cases h
    · split at h <;> cases h
      · exact hupdated
      · exact .expr rfl (.append hupdated (keeps_ofNumber _))
  · cases h

theorem keeps_read (x : Ident) : s.Keeps A (s.read x).visits := by
  unfold read importedProperty
  repeat' split
  all_goals simp

theorem keeps_readShorthand (x : Ident) : s.Keeps A (s.readShorthand x).visits := by
  unfold readShorthand
  split
  · split
    · simp [Property.visits]
    · simp [Property.ofName, Property.visits, Key.visits]
  · simpa [Property.ofName, Property.visits, Key.visits] using keeps_read x

theorem keeps_arrayOf {es : List Expr} (h : s.Keeps A (exprsVisits es)) :
    s.Keeps A (Expr.arrayOf es).visits := by
  refine .expr rfl ?_
  rw [slotsVisits_map_some]
  exact h

theorem keeps_restCall {value : Expr} {keys : List Expr} (hrest : s.exporter ≠ restName)
    (h : s.Keeps A value.visits) (hkeys : s.Keeps A (exprsVisits keys)) :
    s.Keeps A (restCall value keys).visits := by
  rw [restCall, Expr.apply, keeps_call]
  · exact ⟨keeps_ofName _, .append h (.oneExpr (keeps_arrayOf hkeys))⟩
  · apply not_callsExporter
    simpa [Expr.ofName, Expr.skipParens, Ident.synthetic] using hrest.symm

theorem keeps_restSlice {value : Expr} (index : Nat) (h : s.Keeps A value.visits) :
    s.Keeps A (restSlice value index).visits := by
  rw [restSlice, Expr.apply, keeps_call (not_callsExporter fun h => by cases h)]
  exact ⟨(keeps_dot value _).mpr h, .oneExpr (keeps_ofNumber _)⟩

theorem keeps_orFallback {value fallback : Expr} (h : s.Keeps A value.visits)
    (hfallback : s.Keeps A fallback.visits) : s.Keeps A (orFallback value fallback).visits := by
  have hvoid : s.Keeps A Expr.voidZero.visits := .expr rfl (keeps_ofNumber _)
  have htest : s.Keeps A (Expr.binary .strictEq value .voidZero).visits :=
    .expr rfl (h.append hvoid)
  exact .expr rfl ((htest.append hfallback).append h)

theorem keeps_propertyKey {key : Expr} (h : s.Keeps A key.visits) :
    s.Keeps A (propertyKey key).visits := by
  have hkind : s.Keeps A (Expr.unary .typeOf key).visits := .expr rfl h
  have htest : s.Keeps A (Expr.binary .strictEq (.unary .typeOf key) (.ofString "symbol")).visits :=
    .expr rfl (hkind.append (keeps_ofString _))
  have htext : s.Keeps A (Expr.binary .add key (.ofString "")).visits :=
    .expr rfl (h.append (keeps_ofString _))
  exact .expr rfl ((htest.append h).append htext)

theorem keeps_ofList {es : List Expr} {e : Expr} (h : s.Keeps A (exprsVisits es))
    (he : Expr.ofList es = some e) : s.Keeps A e.visits := by
  match es, he with
  | [_], rfl => exact (keeps_append.mp h).1
  | _ :: _ :: _, rfl =>
    exact .expr rfl h

theorem keeps_stmtOfList {sts : List Stmt} (h : s.Keeps A (stmtsVisits sts)) :
    s.Keeps A (Stmt.ofList sts).visits := by
  match sts with
  | [] => exact .cons trivial keeps_nil
  | [st] => exact ((keeps_append).mp h).1
  | _ :: _ :: _ => exact .cons trivial h

theorem keeps_stmtsVisits {sts : List Stmt} (h : ∀ st ∈ sts, s.Keeps A st.visits) :
    s.Keeps A (stmtsVisits sts) := by
  induction sts with
  | nil => exact keeps_nil
  | cons st sts ih =>
    obtain ⟨hst, hsts⟩ := List.forall_mem_cons.mp h
    exact keeps_append.mpr ⟨hst, ih hsts⟩

theorem keeps_headExports {target : Pattern}
    (h : ∀ x ∈ target.boundIdents, ∀ name ∈ s.exportNames x, A.publishes name) :
    s.Keeps A (stmtsVisits (headExports s target)) := by
  refine keeps_stmtsVisits fun st hst => ?_
  obtain ⟨x, hx, hst⟩ := List.mem_flatMap.mp hst
  obtain ⟨name, hname, rfl⟩ := List.mem_map.mp hst
  exact .cons trivial (keeps_publish (h x hx name hname) (keeps_ofName _))

end Setting
end RegisterForm
