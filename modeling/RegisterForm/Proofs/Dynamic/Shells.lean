import RegisterForm.Proofs.Dynamic.Take
/-!
# Made-up expressions evaluated

What the expressions evaluate to that patterns are taken apart into.
-/
namespace RegisterForm.Dynamic

variable {σ : Type} (w : World σ)

theorem eval_ident (x : Ident) : eval w (.ident x) = read w x.name := rfl

theorem eval_ofString (text : String) : eval w (.ofString text) = pure (.string text) := rfl

theorem eval_ofNumber (source : String) :
    eval w (.ofNumber source) = pure (.number (w.numberText source)) := rfl

theorem eval_dot (owner : Expr) (name : String) :
    eval w (owner.dot name) = property w (eval w owner) (.string name) := by
  rw [eval, refer_dot, property]
  simp only [bind_assoc, pure_bind, World.get]

theorem eval_lookup (owner key : Expr) :
    eval w (owner.lookup key) = (do w.getProperty (← eval w owner) (← eval w key)) := by
  rw [eval, refer_lookup]
  simp only [bind_assoc, pure_bind, World.get]

theorem eval_lookup_ofString (owner : Expr) (text : String) :
    eval w (owner.lookup (.ofString text)) = property w (eval w owner) (.string text) := by
  rw [eval_lookup, eval_ofString]
  rfl

theorem eval_lookup_ofNumber (owner : Expr) (source : String) :
    eval w (owner.lookup (.ofNumber source)) =
      property w (eval w owner) (.number (w.numberText source)) := by
  rw [eval_lookup, eval_ofNumber]
  rfl

/-- A property is read under a text in either notation. -/
theorem eval_ite_ofString (owner : Expr) (text : String) :
    eval w (if Text.isIdentifierName text then owner.dot text else owner.lookup (.ofString text)) =
      property w (eval w owner) (.string text) := by
  split
  · exact eval_dot w owner text
  · exact eval_lookup_ofString w owner text

theorem eval_conditional (test yes no : Expr) :
    eval w (.conditional test yes no) = (do
      if (← eval w test).isTruthy then eval w yes else eval w no) := by
  rw [eval, refer_conditional, bind_assoc]
  refine bind_congr fun v => ?_
  split
  · rw [bind_assoc]
    exact bind_pure _
  · rw [bind_assoc]
    exact bind_pure _

theorem eval_strictEq (left right : Expr) :
    eval w (.binary .strictEq left right) = (do
      let v ← eval w left
      return .boolean (v.strictEquals (← eval w right))) := by
  rw [eval, refer_strictEq]
  simp only [bind_assoc, pure_bind, World.get]

theorem eval_not (arg : Expr) :
    eval w arg.negate = (do return .boolean !(← eval w arg).isTruthy) := by
  rw [eval, refer_not, eval]
  simp only [World.applyUnary, bind_assoc, pure_bind, World.get]

theorem eval_and (left right : Expr) :
    eval w (.binary .and left right) = (do
      let v ← eval w left
      if v.isTruthy then eval w right else return v) := by
  rw [eval, refer_and, bind_assoc]
  refine bind_congr fun v => ?_
  split
  · rw [bind_assoc]
    exact bind_pure _
  · rfl

theorem eval_binary {op : BinaryOp} (h : op ∉ [.and, .or, .nullish, .strictEq, .add])
    (left right : Expr) :
    eval w (.binary op left right) = (do
      let v ← eval w left
      w.binary op v (← eval w right)) := by
  rw [eval, refer_binary w h]
  simp only [bind_assoc, pure_bind, World.get, bind_pure]

theorem eval_object (properties : List Property) :
    eval w (.object properties) = w.other (.object properties) := by
  rw [eval, refer_object]
  simp only [bind_assoc, pure_bind, World.get, bind_pure]

theorem eval_update (op : UpdateOp) (isPrefix : Bool) (arg : Expr) :
    eval w (.update op isPrefix arg) = w.other (.update op isPrefix arg) := by
  have hrefer : refer w (.update op isPrefix arg) =
      (do return .value (← w.other (.update op isPrefix arg))) := rfl
  rw [eval, hrefer]
  simp only [bind_assoc, pure_bind, World.get, bind_pure]

theorem eval_sequence (es : List Expr) : eval w (.sequence es) = evalLast w .undefined es := by
  have hrefer : refer w (.sequence es) = (do return .value (← evalLast w .undefined es)) := rfl
  rw [eval, hrefer]
  simp only [bind_assoc, pure_bind, World.get, bind_pure]

theorem eval_orFallback (value fallback : Expr) :
    eval w (orFallback value fallback) = (do
      let v ← eval w value
      if v = .undefined then eval w fallback else eval w value) := by
  have hvoid : eval w .voidZero = pure .undefined := rfl
  rw [orFallback, eval_conditional, eval_strictEq, hvoid, bind_assoc]
  refine bind_congr fun v => ?_
  simp only [pure_bind, Value.strictEquals_undefined, Value.isTruthy, beq_iff_eq]

theorem eval_assignName (name : String) (value : Expr) :
    eval w (.assignName name value) = (do
      let v ← eval w value
      write name v
      return v) := by
  rw [eval, refer_assignName]
  simp only [bind_assoc, pure_bind, World.get]

theorem eval_assignTo_expr (target value : Expr) :
    eval w (.assignTo (.expr target) value) = storeTo w target (eval w value) := by
  rw [eval, refer_assignTo_expr, storeTo]
  simp only [bind_assoc, pure_bind, World.get]

/-! ## Calls -/

theorem eval_apply (callee : Expr) {args : List Expr} (h : args.any isSpread = false) :
    eval w (callee.apply args) = (do
      let r ← refer w callee
      let f ← w.get r
      w.call f r.receiver (← evalEach w args)) := by
  rw [eval, refer_apply w callee h]
  simp only [bind_assoc, pure_bind, World.get, bind_pure]

theorem eval_applyName (name : String) {args : List Expr} (h : args.any isSpread = false) :
    eval w ((Expr.ofName name).apply args) = (do
      let f ← read w name
      w.call f .undefined (← evalEach w args)) := by
  rw [eval_apply w _ h]
  rfl

theorem eval_publish (s : Setting) (name : String) {value : Expr} (h : isSpread value = false) :
    eval w (s.publish name value) = publishing w s name (eval w value) := by
  have hargs : [Expr.ofString name, value].any isSpread = false := by
    show (false || (isSpread value || false)) = false
    rw [h, Bool.or_false, Bool.or_false]
  rw [Setting.publish, eval_applyName w _ hargs, evalEach_cons, evalEach_cons, evalEach_nil,
    eval_ofString, publishing]
  simp only [bind_assoc, pure_bind]

theorem isSpread_publish (s : Setting) (name : String) (value : Expr) :
    isSpread (s.publish name value) = false := rfl

theorem eval_bindingAssignment (s : Setting) (x : Ident) (value : Expr) :
    eval w (s.bindingAssignment x value) = bindTo w s x (eval w value) := by
  have hall : ∀ (names : List String) (e : Expr), isSpread e = false →
      eval w (names.foldl (fun e name => s.publish name e) e) =
        names.foldl (fun m name => publishing w s name m) (eval w e) := by
    intro names
    induction names with
    | nil => exact fun _ _ => rfl
    | cons name names ih =>
      intro e he
      rw [List.foldl_cons, List.foldl_cons, ih _ (isSpread_publish s name e), eval_publish w s name he]
  rw [Setting.bindingAssignment, Setting.published, hall _ _ rfl, bindTo]
  congr 1
  exact eval_assignName w x.name value

theorem eval_arrayOf {es : List Expr} (h : ∀ e ∈ es, isSpread e = false) :
    eval w (.arrayOf es) = (do w.array (← (es.map (eval w)).mapM id)) := by
  have hall : (es.map some).all isSingle = true := by
    simpa [isSingle] using h
  rw [eval, Expr.arrayOf, refer_array w hall, evalSlots_map_some]
  simp only [bind_assoc, pure_bind, World.get, bind_pure]

theorem eval_restCall {value : Expr} {keys : List Expr} (hvalue : isSpread value = false)
    (hkeys : ∀ key ∈ keys, isSpread key = false) :
    eval w (restCall value keys) = remaining w (eval w value) (keys.map (eval w)) := by
  have hargs : [value, Expr.arrayOf keys].any isSpread = false := by
    show (isSpread value || (false || false)) = false
    rw [hvalue, Bool.or_false, Bool.or_false]
  rw [restCall, eval_applyName w _ hargs, evalEach_cons, evalEach_cons, evalEach_nil,
    eval_arrayOf w hkeys, remaining]
  simp only [bind_assoc, pure_bind]

theorem eval_restSlice (value : Expr) (index : Nat) :
    eval w (restSlice value index) = elementsFrom w (eval w value) index := by
  rw [restSlice, eval_apply w _ rfl, refer_dot, evalEach_cons, evalEach_nil, eval_ofNumber,
    elementsFrom]
  simp only [bind_assoc, pure_bind, World.get, Referent.receiver]

theorem eval_typeOf (x : Ident) : eval w (.unary .typeOf (.ident x)) = w.typeOf (.named x.name) := by
  rw [eval, refer_typeOf, refer_ident]
  simp only [pure_bind, World.get, bind_assoc, bind_pure]

theorem eval_add (left right : Expr) :
    eval w (.binary .add left right) = (do
      let v ← eval w left
      w.add v (← eval w right)) := by
  rw [eval, refer_add]
  simp only [bind_assoc, pure_bind, World.get, bind_pure]

/-- A key that a variable holds, made a key for a rest. -/
theorem eval_propertyKey (x : Ident) :
    eval w (propertyKey (.ident x)) = (do keyOf w (← read w x.name)) := by
  have hstring : ∀ text, eval w (.ofString text) = pure (.string text) := fun _ => rfl
  rw [propertyKey, eval_conditional, eval_strictEq, eval_typeOf, eval_add, eval_ident, hstring,
    hstring]
  refine Run.ext fun store => ?_
  cases hx : store.vars x.name with
  | none =>
    have htype : (w.typeOf (.named x.name)).outcome store = (.ok (.string "undefined"), store) := by
      show (Except.ok (Value.string ((store.vars x.name).elim "undefined" w.typeText)), store) = _
      rw [hx]
      rfl
    have hread := outcome_read_of_none (w := w) hx
    rw [bind_assoc, Run.outcome_bind_of_ok htype, Run.outcome_bind_of_error hread]
    exact Run.outcome_bind_of_error hread _
  | some v =>
    have htype : (w.typeOf (.named x.name)).outcome store = (.ok (.string (w.typeText v)), store) := by
      show (Except.ok (Value.string ((store.vars x.name).elim "undefined" w.typeText)), store) = _
      rw [hx]
      rfl
    have hread := outcome_read_of_some (w := w) hx
    rw [bind_assoc, Run.outcome_bind_of_ok htype, Run.outcome_bind_of_ok hread, keyOf]
    by_cases hsymbol : w.typeText v = "symbol"
    · rw [if_pos hsymbol, hsymbol]
      exact hread
    · have hfalse : (Value.string (w.typeText v)).strictEquals (.string "symbol") = false := by
        simp [Value.strictEquals, hsymbol]
      rw [if_neg hsymbol]
      simp only [pure_bind, hfalse, Value.isTruthy, Bool.false_eq_true, if_false]
      exact Run.outcome_bind_of_ok hread _

/-! ## Outcomes -/

section
variable {w : World σ} {store : Store σ}

theorem outcome_evalEach_nil : (evalEach w []).outcome store = (.ok [], store) := rfl

theorem outcome_evalEach_cons {e : Expr} {es : List Expr} {v : Value} {vs : List Value}
    (he : (eval w e).outcome store = (.ok v, store))
    (hes : (evalEach w es).outcome store = (.ok vs, store)) :
    (evalEach w (e :: es)).outcome store = (.ok (v :: vs), store) := by
  rw [evalEach_cons, Run.outcome_bind_of_ok he, Run.outcome_bind_of_ok hes, Run.outcome_pure]

theorem outcome_and {left : Expr} (right : Expr) {b : Bool}
    (hleft : (eval w left).outcome store = (.ok (.boolean b), store)) :
    (eval w (.binary .and left right)).outcome store =
      if b then (eval w right).outcome store else (.ok (.boolean false), store) := by
  rw [eval_and, Run.outcome_bind_of_ok hleft]
  cases b <;> rfl

variable {owner : Expr} {v : Value} (howner : (eval w owner).outcome store = (.ok v, store))
include howner

theorem outcome_dot (name : String) : (eval w (owner.dot name)).outcome store =
    (w.getProperty v (.string name)).outcome store := by
  rw [eval_dot, property, Run.outcome_bind_of_ok howner]

theorem outcome_lookup {key : Expr} {k : Value}
    (hkey : (eval w key).outcome store = (.ok k, store)) :
    (eval w (owner.lookup key)).outcome store = (w.getProperty v k).outcome store := by
  rw [eval_lookup, Run.outcome_bind_of_ok howner, Run.outcome_bind_of_ok hkey]

/-- A method is called on the value that it is read from. -/
theorem outcome_method {name : String} {f : Value}
    (hget : (w.getProperty v (.string name)).outcome store = (.ok f, store)) {args : List Expr}
    (hspread : args.any isSpread = false) {vs : List Value}
    (hargs : (evalEach w args).outcome store = (.ok vs, store)) :
    (eval w ((owner.dot name).apply args)).outcome store = (w.call f v vs).outcome store := by
  have href : (refer w (owner.dot name)).outcome store =
      (.ok (.property v (.string name)), store) := by
    rw [refer_dot, Run.outcome_bind_of_ok howner, Run.outcome_pure]
  have hgets : (w.get (.property v (.string name))).outcome store = (.ok f, store) := hget
  rw [eval_apply w _ hspread, Run.outcome_bind_of_ok href, Run.outcome_bind_of_ok hgets,
    Run.outcome_bind_of_ok hargs]
  rfl

end

end RegisterForm.Dynamic
