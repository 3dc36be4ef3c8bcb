import RegisterForm.Proofs.Dynamic.Eval
import RegisterForm.Proofs.Lowering.Ordered
/-!
# Computations that leave variables alone

A computation is local with regard to some variables if it neither reads nor writes them. In a world
whose operations are local, evaluating an expression that does not mention the variables is.
-/
namespace RegisterForm.Dynamic
open Vocabulary

variable {σ α β : Type} {ts : List String}

/-- The computation neither reads nor writes the variables, and what it gives satisfies `Q`. -/
structure Local (ts : List String) (Q : α → Prop) (x : Run σ α) : Prop where
  outcome : ∀ f store, x.outcome (store.holding ts f) =
    ((x.outcome store).1, (x.outcome store).2.holding ts f)
  result : ∀ store a store', x.outcome store = (.ok a, store') → Q a

/-- A referent that is none of the variables. -/
def Referent.Avoids (ts : List String) : Referent → Prop
  | .named name => name ∉ ts
  | _ => True

namespace Local
variable {Q : α → Prop} {Q' : β → Prop} {x y : Run σ α} {f : α → Run σ β}

theorem pure {a : α} (h : Q a) : Local ts Q (pure a : Run σ α) where
  outcome _ _ := rfl
  result _ _ _ hout := by
    cases hout
    exact h

theorem throw (e : Value) : Local ts Q (throw e : Run σ α) where
  outcome _ _ := rfl
  result _ _ _ hout := by cases hout

theorem bind (hx : Local ts Q x) (hf : ∀ a, Q a → Local ts Q' (f a)) : Local ts Q' (x >>= f) where
  outcome g store := by
    have hstep := hx.outcome g store
    rcases hout : x.outcome store with ⟨r, store'⟩
    rw [hout] at hstep
    cases r with
    | ok a =>
      rw [Run.outcome_bind_of_ok hstep, Run.outcome_bind_of_ok hout]
      exact (hf a (hx.result store a store' hout)).outcome g store'
    | error e => rw [Run.outcome_bind_of_error hstep, Run.outcome_bind_of_error hout]
  result store b store'' hbind := by
    rcases hout : x.outcome store with ⟨r, store'⟩
    cases r with
    | ok a =>
      rw [Run.outcome_bind_of_ok hout] at hbind
      exact (hf a (hx.result store a store' hout)).result store' b store'' hbind
    | error e =>
      rw [Run.outcome_bind_of_error hout] at hbind
      cases hbind

theorem mono {Q'' : α → Prop} (hx : Local ts Q x) (h : ∀ a, Q a → Q'' a) : Local ts Q'' x :=
  ⟨hx.outcome, fun store a store' hout => h a (hx.result store a store' hout)⟩

theorem ite {c : Prop} {_ : Decidable c} (hx : Local ts Q x) (hy : Local ts Q y) :
    Local ts Q (if c then x else y) := by
  split
  · exact hx
  · exact hy

theorem read (w : World σ) {name : String} (h : name ∉ ts) :
    Local ts (fun _ => True) (read w name) where
  outcome f store := by
    have hvars := Store.vars_holding_of_not_mem h f store
    cases hv : store.vars name with
    | none => rw [outcome_read_of_none (hvars.trans hv), outcome_read_of_none hv]
    | some v => rw [outcome_read_of_some (hvars.trans hv), outcome_read_of_some hv]
  result _ _ _ _ := trivial

theorem write {name : String} (h : name ∉ ts) (v : Value) :
    Local ts (fun _ => True) (write name v : Run σ Unit) where
  outcome f store := by
    have hset : (store.holding ts f).set name v = (store.set name v).holding ts f := by
      refine congrArg (Store.mk · store.rest) (funext fun x => ?_)
      by_cases hx : x = name
      · subst hx
        simp [Store.set, h]
      · simp [Store.set, Store.holding, hx]
    rw [outcome_write, outcome_write, hset]
  result _ _ _ _ := trivial

end Local

/-! ## Worlds -/

/-- All that a world leaves open is local, an expression if it does not mention the variables. -/
structure World.Local (w : World σ) (ts : List String) : Prop where
  getProperty : ∀ owner key, Dynamic.Local ts (fun _ => True) (w.getProperty owner key)
  putProperty : ∀ owner key value, Dynamic.Local ts (fun _ => True) (w.putProperty owner key value)
  call : ∀ callee receiver args, Dynamic.Local ts (fun _ => True) (w.call callee receiver args)
  array : ∀ elements, Dynamic.Local ts (fun _ => True) (w.array elements)
  unary : ∀ op arg, Dynamic.Local ts (fun _ => True) (w.unary op arg)
  binary : ∀ op left right, Dynamic.Local ts (fun _ => True) (w.binary op left right)
  other : ∀ e, Spares ts e.visits → Dynamic.Local ts (fun _ => True) (w.other e)

namespace World.Local
variable {w : World σ} (hw : w.Local ts)
include hw

theorem get {r : Referent} (hr : r.Avoids ts) : Dynamic.Local ts (fun _ => True) (w.get r) := by
  cases r with
  | named name => exact .read w hr
  | property owner key => exact hw.getProperty owner key
  | value v => exact .pure trivial

theorem put {r : Referent} (hr : r.Avoids ts) (v : Value) :
    Dynamic.Local ts (fun _ => True) (w.put v r) := by
  cases r with
  | named name => exact .write hr v
  | property owner key => exact hw.putProperty owner key v
  | value _ => exact .throw _

theorem typeOf {r : Referent} (hr : r.Avoids ts) :
    Dynamic.Local ts (fun _ => True) (w.typeOf r) := by
  cases r with
  | named name =>
    refine ⟨fun f store => ?_, fun _ _ _ _ => trivial⟩
    have hvars := Store.vars_holding_of_not_mem hr f store
    show (Except.ok (Value.string (((store.holding ts f).vars name).elim _ _)), _) = _
    rw [hvars]
    rfl
  | property owner key => exact (hw.getProperty owner key).bind fun _ _ => .pure trivial
  | value v => exact .pure trivial

theorem applyUnary (op : UnaryOp) {r : Referent} (hr : r.Avoids ts) :
    Dynamic.Local ts (fun _ => True) (w.applyUnary op r) := by
  cases op with
  | typeOf => exact hw.typeOf hr
  | void | not => exact (hw.get hr).bind fun _ _ => .pure trivial
  | minus | plus | bitNot | delete => exact (hw.get hr).bind fun v _ => hw.unary _ v

theorem applyBinary (op : BinaryOp) (left right : Value) :
    Dynamic.Local ts (fun _ => True) (w.applyBinary op left right) := by
  unfold World.applyBinary World.add
  split
  · exact .pure trivial
  · split
    · exact .ite (.pure trivial) (hw.binary _ _ _)
    · exact hw.binary _ _ _
  · exact hw.binary _ _ _

end World.Local

/-! ## Expressions -/

section
variable {w : World σ} (hw : w.Local ts)

-- Lists ask of the world what their elements do.
set_option linter.unusedSectionVars false

include hw

mutual

theorem local_refer : (e : Expr) → Spares ts e.visits → Local ts (Referent.Avoids ts) (refer w e)
  | .ident x, h => .pure ((covers_identExpr x).mp h)
  | .literal (.string _), _ | .literal (.number _), _ | .literal (.boolean _), _
  | .literal .null, _ => .pure trivial
  | .member owner name false, h =>
    (local_refer owner ((covers_dot owner name).mp h)).bind fun _ hr =>
      (hw.get hr).bind fun _ _ => .pure trivial
  | .index owner key false, h =>
    have hparts := (covers_lookup owner key).mp h
    (local_refer owner hparts.1).bind fun _ hr => (hw.get hr).bind fun _ _ =>
      (local_refer key hparts.2).bind fun _ hr => (hw.get hr).bind fun _ _ => .pure trivial
  | .paren inner, h => local_refer inner ((covers_paren inner).mp h)
  | .unary op arg, h =>
    .ite ((hw.other _ h).bind fun _ _ => .pure trivial)
      ((local_refer arg ((covers_unary op arg).mp h)).bind fun _ hr =>
        (hw.applyUnary op hr).bind fun _ _ => .pure trivial)
  | .binary op left right, h => by
    obtain ⟨hleft, hright⟩ := (covers_binary op left right).mp h
    have hsecond : ∀ {Q : Referent → Prop} {f : Value → Run σ Referent}, (∀ v, Local ts Q (f v)) →
        Local ts Q (refer w right >>= fun r => w.get r >>= f) := fun hf =>
      (local_refer right hright).bind fun _ hr => (hw.get hr).bind fun v _ => hf v
    have hvalue : ∀ v, Local ts (Referent.Avoids ts) (pure (.value v) : Run σ Referent) :=
      fun _ => .pure trivial
    refine (local_refer left hleft).bind fun _ hr => (hw.get hr).bind fun v _ => ?_
    cases op with
    | and => exact .ite (hsecond hvalue) (hvalue v)
    | or => exact .ite (hvalue v) (hsecond hvalue)
    | nullish => exact .ite (hsecond hvalue) (hvalue v)
    | _ => exact hsecond fun v' => (hw.applyBinary _ v v').bind fun _ _ => .pure trivial
  | .conditional test yes no, h =>
    have hparts := (covers_conditional test yes no).mp h
    (local_refer test hparts.1).bind fun _ hr => (hw.get hr).bind fun _ _ =>
      .ite ((local_refer yes hparts.2.1).bind fun _ hr => (hw.get hr).bind fun _ _ => .pure trivial)
        ((local_refer no hparts.2.2).bind fun _ hr => (hw.get hr).bind fun _ _ => .pure trivial)
  | .assign .plain (.ident x) value, h =>
    have hparts := (covers_assignTo (.ident x) value).mp h
    (local_refer value hparts.2).bind fun _ hr => (hw.get hr).bind fun v _ =>
      (Local.write ((covers_identPattern x).mp hparts.1).2 v).bind fun _ _ => .pure trivial
  | .assign .plain (.expr target) value, h =>
    have hparts := (covers_assignTo (.expr target) value).mp h
    (local_refer target ((covers_exprPattern target).mp hparts.1)).bind fun _ htarget =>
      (local_refer value hparts.2).bind fun _ hr => (hw.get hr).bind fun v _ =>
        (hw.put htarget v).bind fun _ _ => .pure trivial
  | .call callee args false, h =>
    have hparts := (covers_call callee args false).mp h
    .ite ((hw.other _ h).bind fun _ _ => .pure trivial)
      ((local_refer callee hparts.2.1).bind fun r hr => (hw.get hr).bind fun f _ =>
        (local_evalEach args hparts.2.2).bind fun vs _ =>
          (hw.call f r.receiver vs).bind fun _ _ => .pure trivial)
  | .array elements, h =>
    .ite ((local_evalSlots elements ((covers_array elements).mp h)).bind fun vs _ =>
        (hw.array vs).bind fun _ _ => .pure trivial)
      ((hw.other _ h).bind fun _ _ => .pure trivial)
  | .sequence exprs, h =>
    (local_evalLast .undefined exprs ((covers_sequence exprs).mp h)).bind fun _ _ => .pure trivial
  | .literal (.regex _ _), h | .member _ _ true, h | .index _ _ true, h
  | .assign .plain (.object _ _) _, h | .assign .plain (.array _ _) _, h
  | .assign .add _ _, h | .assign .sub _ _, h | .assign .mul _ _, h | .assign .div _ _, h
  | .assign .mod _ _, h | .assign .exp _ _, h | .assign .shl _ _, h | .assign .shr _ _, h
  | .assign .ushr _ _, h | .assign .bitAnd _ _, h | .assign .bitOr _ _, h | .assign .bitXor _ _, h
  | .assign .and _ _, h | .assign .or _ _, h | .assign .nullish _ _, h
  | .call _ _ true, h | .template _ _, h | .tagged _ _ _, h | .this, h | .super, h | .object _, h
  | .function _, h | .arrow _ _ _, h | .classExpr _, h | .update _ _ _, h | .newBare _, h
  | .newCall _ _, h | .yield _ _, h | .await _, h | .spread _, h | .importCall _, h
  | .importMeta, h => (hw.other _ h).bind fun _ _ => .pure trivial
termination_by structural e => e

theorem local_evalEach : (es : List Expr) → Spares ts (exprsVisits es) →
    Local ts (fun _ => True) (evalEach w es)
  | [], _ => .pure trivial
  | e :: es, h =>
    have hparts := (covers_append _ _).mp h
    (local_refer e hparts.1).bind fun _ hr => (hw.get hr).bind fun _ _ =>
      (local_evalEach es hparts.2).bind fun _ _ => .pure trivial
termination_by structural es => es

theorem local_evalExpr? : (e : Option Expr) → Spares ts (exprVisits? e) →
    Local ts (fun _ => True) (evalExpr? w e)
  | none, _ => .pure trivial
  | some e, h => (local_refer e h).bind fun _ hr => hw.get hr
termination_by structural e => e

theorem local_evalSlots : (es : List (Option Expr)) → Spares ts (slotsVisits es) →
    Local ts (fun _ => True) (evalSlots w es)
  | [], _ => .pure trivial
  | e :: es, h =>
    have hparts := (covers_append _ _).mp h
    (local_evalExpr? e hparts.1).bind fun _ _ =>
      (local_evalSlots es hparts.2).bind fun _ _ => .pure trivial
termination_by structural es => es

theorem local_evalLast (v : Value) : (es : List Expr) → Spares ts (exprsVisits es) →
    Local ts (fun _ => True) (evalLast w v es)
  | [], _ => .pure trivial
  | e :: es, h =>
    have hparts := (covers_append _ _).mp h
    (local_refer e hparts.1).bind fun _ hr => (hw.get hr).bind fun v _ =>
      local_evalLast v es hparts.2
termination_by structural es => es

end

/-- An expression that does not mention the variables leaves them alone. -/
theorem local_eval {e : Expr} (h : Spares ts e.visits) : Local ts (fun _ => True) (eval w e) :=
  (local_refer hw e h).bind fun _ hr => hw.get hr

end
end RegisterForm.Dynamic
