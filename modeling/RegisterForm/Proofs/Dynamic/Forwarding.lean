import RegisterForm.Proofs.Dynamic.Calls
import RegisterForm.Registration.StarExport
/-!
# Forwarding at run time

What the function does that forwards the names of another module: it passes on what the other
module's object has under the keys of its own that loops see, `default` and the listed names left
out. The list is asked by a method call, so a listed name `hasOwnProperty` gets in its way.
-/
namespace RegisterForm.Dynamic

/-! ## The guard -/

/-- The test that the function makes for each key. -/
def guard (ownNames : Option String) : Expr :=
  let key := Expr.ofName "n"
  let own : Expr :=
    .binary .and (.binary .strictNe key (.ofString "default"))
      ((Expr.ofPath "Object.prototype.hasOwnProperty.call").apply [.ofName "m", key])
  match ownNames with
  | none => own
  | some list => .binary .and own (.negate (((Expr.ofName list).dot "hasOwnProperty").apply [key]))

/-- What the function does for a key that passes the test. -/
def copyKey : Stmt :=
  .expr (.assignTo (.expr ((Expr.ofName "exports").lookup (.ofName "n")))
    ((Expr.ofName "m").lookup (.ofName "n")))

/-- The function that forwards names. -/
def forwarder (exporter name : String) (ownNames : Option String) : Func :=
  ⟨some (.synthetic name), [.ofName "m"],
    [.varInit "exports" (some (.object [])),
      .forIn (.var ⟨.var, [.ofName "n" none]⟩) (.ofName "m")
        (.block [.ifThen (guard ownNames) copyKey]),
      .expr ((Expr.ofName exporter).apply [.ofName "exports"])], false, false⟩

theorem helper_eq (s : Setting) (name : String) (ownNames : Option String) :
    StarExport.helper s name ownNames = .function {} (forwarder s.exporter name ownNames) := rfl

/-- The object has the listed names for its keys, but for `__proto__`. -/
def Heap.Lists (R : Realm) (h : Heap) (list : Nat) (names : List String) : Prop :=
  h.objects[list]? = some (.ofEntries
    ((names.filter (· ≠ "__proto__")).map fun name => (name, .boolean true))
    (some R.objectPrototype))

section
variable {R : Realm} {m list : Nat} {names : List String} {ownNames : Option String}
  {store : Store Heap} {key : String}

theorem lookup_true {names : List String} :
    ((names.map fun name => (name, Value.boolean true)).lookup key) =
      if key ∈ names then some (.boolean true) else none := by
  induction names with
  | nil => rfl
  | cons name names ih =>
    rw [List.map_cons, List.lookup_cons, ih]
    by_cases hname : key = name
    · simp [hname]
    · simp [hname, beq_false_of_ne hname]

theorem Heap.Lists.own? {h : Heap} (hlist : h.Lists R list names) (key : String) :
    h.own? list key =
      if key ∈ names ∧ key ≠ "__proto__" then some (.value (.boolean true)) else none := by
  rw [Heap.own?, hlist, Option.bind_some, Obj.content?_ofEntries, lookup_true]
  by_cases hkey : key ∈ names ∧ key ≠ "__proto__" <;> simp [hkey]

theorem Heap.Lists.proto? {h : Heap} (hlist : h.Lists R list names) :
    h.proto? list = some R.objectPrototype := by
  rw [Heap.proto?, hlist]
  rfl

variable (hR : R.Intact store.rest) (hm : store.vars "m" = some (.object m))
  (hobject : store.vars "Object" = some (.object R.object))
  (hkey : store.vars "n" = some (.string key))
include hR hm hobject hkey

/-- Whether the key is another one than `default`, of the object itself. -/
theorem outcome_guard_none : (eval R.world (guard none)).outcome store =
    (.ok (.boolean (key != "default" && (store.rest.own? m key).isSome)), store) := by
  have hread : (eval R.world (.ofName "n")).outcome store = (.ok (.string key), store) :=
    outcome_read_of_some hkey
  have hvalue : (eval R.world (.ofName "m")).outcome store = (.ok (.object m), store) :=
    outcome_read_of_some hm
  have hdefault : (eval R.world (.binary .strictNe (.ofName "n") (.ofString "default"))).outcome
      store = (.ok (.boolean (key != "default")), store) := by
    have hequals : (Value.string key).strictEquals (.string "default") = (key == "default") := by
      simp [Value.strictEquals]
    rw [eval_binary _ (by decide), Run.outcome_bind_of_ok hread, eval_ofString, pure_bind]
    show (Except.ok (Value.boolean !(Value.string key).strictEquals (.string "default")), store) = _
    rw [hequals]
    rfl
  have hctor : (eval R.world (.ofName "Object")).outcome store = (.ok (.object R.object), store) :=
    outcome_read_of_some hobject
  have hproto := Realm.outcome_dot hctor (Heap.lookup_own hR.prototype)
  have hmethod := Realm.outcome_dot hproto (Heap.lookup_own hR.method)
  have hcall : (eval R.world ((Expr.ofPath "Object.prototype.hasOwnProperty.call").apply
      [.ofName "m", .ofName "n"])).outcome store =
        (.ok (.boolean (store.rest.own? m key).isSome), store) := by
    refine (Realm.outcome_method hmethod (Heap.lookup_inherited hR.noCall hR.inherits hR.call) rfl
      (outcome_evalEach_cons hvalue (outcome_evalEach_cons hread
        outcome_evalEach_nil))).trans ?_
    rw [Realm.call, if_pos rfl]
    exact Realm.outcome_hasOwn
  unfold guard
  rw [outcome_and _ hdefault, hcall]
  cases key != "default" <;> rfl

variable (hnames : ownNames = none → names = [])
  (hlist : ∀ name ∈ ownNames, store.vars name = some (.object list) ∧ store.rest.Lists R list names)
include hnames hlist

/-- The guard finds the keys to pass on, if no listed name hides the method that it calls. -/
theorem outcome_guard (hproto : key ≠ "__proto__" ∨ store.rest.own? m key = none)
    (hsafe : "hasOwnProperty" ∈ names → key = "default" ∨ store.rest.own? m key = none) :
    (eval R.world (guard ownNames)).outcome store =
      (.ok (.boolean (key != "default" && (store.rest.own? m key).isSome && !names.contains key)),
        store) := by
  have hown := outcome_guard_none hR hm hobject hkey
  cases ownNames with
  | none =>
    rw [hown, hnames rfl]
    simp
  | some name =>
    obtain ⟨hvar, hlists⟩ := hlist name rfl
    have hread : (eval R.world (.ofName "n")).outcome store = (.ok (.string key), store) :=
      outcome_read_of_some hkey
    have howner : (eval R.world (.ofName name)).outcome store = (.ok (.object list), store) :=
      outcome_read_of_some hvar
    have hand := outcome_and (.negate (((Expr.ofName name).dot
      "hasOwnProperty").apply [.ofName "n"])) hown
    refine hand.trans ?_
    cases hb : (key != "default" && (store.rest.own? m key).isSome) with
    | false => rfl
    | true =>
      obtain ⟨hdefault, hsome⟩ := Bool.and_eq_true_iff.mp hb
      have hne : key ≠ "default" := by simpa using hdefault
      have hmine : store.rest.own? m key ≠ none := Option.isSome_iff_ne_none.mp hsome
      have hfree : "hasOwnProperty" ∉ names := fun h => (hsafe h).elim hne hmine
      have hlookup : store.rest.lookup list "hasOwnProperty" =
          some (.value (.object R.hasOwnProperty)) := by
        refine Heap.lookup_inherited ?_ hlists.proto? hR.method
        rw [hlists.own?, if_neg fun h => hfree h.1]
      have hcall : (eval R.world (((Expr.ofName name).dot "hasOwnProperty").apply
          [.ofName "n"])).outcome store = (.ok (.boolean (names.contains key)), store) := by
        refine (Realm.outcome_method howner hlookup rfl (outcome_evalEach_cons hread
          outcome_evalEach_nil)).trans ?_
        rw [Realm.outcome_call hR, hlists.own?]
        have hproto' := hproto.resolve_right hmine
        by_cases hin : key ∈ names <;> simp [hin, hproto']
      rw [if_pos rfl, eval_not, Run.outcome_bind_of_ok hcall]
      rfl

/-- A listed name `hasOwnProperty` is no method, and the guard fails on the first key that is left
to ask about. -/
theorem outcome_guard_error (hlisted : "hasOwnProperty" ∈ names) (hne : key ≠ "default")
    (hmine : store.rest.own? m key ≠ none) :
    (eval R.world (guard ownNames)).outcome store = (.error R.typeError, store) := by
  have hown := outcome_guard_none hR hm hobject hkey
  cases ownNames with
  | none =>
    rw [hnames rfl] at hlisted
    cases hlisted
  | some name =>
    obtain ⟨hvar, hlists⟩ := hlist name rfl
    have hread : (eval R.world (.ofName "n")).outcome store = (.ok (.string key), store) :=
      outcome_read_of_some hkey
    have howner : (eval R.world (.ofName name)).outcome store = (.ok (.object list), store) :=
      outcome_read_of_some hvar
    have hand := outcome_and (.negate (((Expr.ofName name).dot
      "hasOwnProperty").apply [.ofName "n"])) hown
    refine hand.trans ?_
    have hb : (key != "default" && (store.rest.own? m key).isSome) = true := by
      simpa [hne] using Option.isSome_iff_ne_none.mpr hmine
    have hlookup : store.rest.lookup list "hasOwnProperty" = some (.value (.boolean true)) := by
      refine Heap.lookup_own ?_
      rw [hlists.own?, if_pos ⟨hlisted, by decide⟩]
    have hcall : (eval R.world (((Expr.ofName name).dot "hasOwnProperty").apply
        [.ofName "n"])).outcome store = (.error R.typeError, store) :=
      (Realm.outcome_method howner hlookup rfl (outcome_evalEach_cons hread
        outcome_evalEach_nil)).trans (Realm.outcome_call_true _ _)
    rw [hb, if_pos rfl, eval_not]
    exact Run.outcome_bind_of_error hcall _

end

/-! ## The loop -/

/-- The heap while the function collects what it passes on. -/
def Heap.collecting (R : Realm) (base : Heap) (entries : List (String × Value)) : Heap :=
  { base with objects := base.objects ++ [.ofEntries entries (some R.objectPrototype)] }

namespace Heap
variable {R : Realm} {base : Heap} {entries : List (String × Value)} {id : Nat}

theorem extends_collecting : base.Extends (base.collecting R entries) := fun _ hid =>
  List.getElem?_append_left hid

theorem collecting_last : (base.collecting R entries).objects[base.objects.length]? =
    some (.ofEntries entries (some R.objectPrototype)) := by
  simp [collecting]

theorem own?_collecting (hid : id < base.objects.length) (key : String) :
    (base.collecting R entries).own? id key = base.own? id key := extends_collecting.own? hid key

theorem lists_collecting {list : Nat} {names : List String} (hlist : base.Lists R list names) :
    (base.collecting R entries).Lists R list names :=
  (extends_collecting list (List.getElem?_eq_some_iff.mp hlist).1).trans hlist

theorem modify_last {α : Type} (change : α → α) (a : α) : (as : List α) →
    (as ++ [a]).modify as.length change = as ++ [change a]
  | [] => rfl
  | a' :: as => by
    rw [List.cons_append, List.length_cons, List.modify_succ_cons, modify_last change a as,
      List.cons_append]

theorem update_collecting {key : String} {v : Value} (hnew : key ∉ entries.map Prod.fst) :
    (base.collecting R entries).update base.objects.length (·.define key v) =
      base.collecting R (entries ++ [(key, v)]) := by
  rw [update, collecting, modify_last, Obj.define_ofEntries hnew, collecting]

/-- A new key gets a property of its own. -/
theorem lookup_collecting (hR : R.Intact base) {key : String} (hne : key ≠ "__proto__")
    (hnew : key ∉ entries.map Prod.fst) :
    (base.collecting R entries).lookup base.objects.length key ≠ some .prototypeAccess := by
  have hR' : R.Intact (base.collecting R entries) := hR.mono extends_collecting
  have hnone : (base.collecting R entries).own? base.objects.length key = none := by
    rw [Heap.own?, collecting_last, Option.bind_some, Obj.content?_eq_none]
    simpa [Obj.ofEntries] using hnew
  have hproto : (base.collecting R entries).proto? base.objects.length =
      some R.objectPrototype := by
    rw [Heap.proto?, collecting_last]
    rfl
  cases hcommon : (base.collecting R entries).own? R.objectPrototype key with
  | none =>
    rw [lookup_absent hnone hproto hcommon hR'.root]
    simp
  | some c =>
    rw [lookup_inherited hnone hproto hcommon]
    exact fun hc => hne (hR'.access key (hcommon.trans hc))

end Heap

/-- What an object has of its own under some keys, but for those that are skipped. -/
def ownUnless (h : Heap) (m : Nat) (skip : String → Prop) [DecidablePred skip]
    (keys : List String) : List (String × Value) :=
  keys.filterMap fun key =>
    if skip key then none
    else match h.own? m key with
      | some (.value v) => some (key, v)
      | _ => none

section
variable {h : Heap} {m : Nat} {skip : String → Prop} [DecidablePred skip] {key : String}

theorem ownUnless_cons (keys : List String) :
    ownUnless h m skip (key :: keys) = ownUnless h m skip [key] ++ ownUnless h m skip keys :=
  List.filterMap_append (l := [key])

theorem ownUnless_cons_of_not_skip (keys : List String) {v : Value}
    (hown : h.own? m key = some (.value v)) (hkey : ¬ skip key) :
    ownUnless h m skip (key :: keys) = (key, v) :: ownUnless h m skip keys := by
  rw [ownUnless, List.filterMap_cons, hown, if_neg hkey]
  rfl

theorem ownUnless_cons_of_skip (keys : List String) (hskip : skip key ∨ h.own? m key = none) :
    ownUnless h m skip (key :: keys) = ownUnless h m skip keys := by
  rw [ownUnless, List.filterMap_cons]
  by_cases hkey : skip key
  · rw [if_pos hkey]
    rfl
  · rw [if_neg hkey, hskip.resolve_left hkey]
    rfl

end

/-- What is passed on of what an object has under some keys. -/
def forwardedFrom (base : Heap) (m : Nat) (names keys : List String) : List (String × Value) :=
  keys.filterMap fun key =>
    if key = "default" ∨ key ∈ names then none
    else match base.own? m key with
      | some (.value v) => some (key, v)
      | _ => none

theorem forwardedFrom_eq (base : Heap) (m : Nat) (names keys : List String) :
    forwardedFrom base m names keys =
      ownUnless base m (fun key => key = "default" ∨ key ∈ names) keys := rfl

section
variable {R : Realm} {m list : Nat} {names : List String} {ownNames : Option String}
  {exporter key : String} {base : Heap} {entries : List (String × Value)}
  {vars : String → Option Value} {store : Store Heap} {v : Value}

/-- The object that collects gets a new property. -/
theorem Realm.outcome_putProperty (hR : R.Intact base) (vars : String → Option Value)
    (hne : key ≠ "__proto__") (hnew : key ∉ entries.map Prod.fst) (v : Value) :
    (R.putProperty (.object base.objects.length) (.string key) v).outcome
      ⟨vars, base.collecting R entries⟩ =
        (.ok (), ⟨vars, base.collecting R (entries ++ [(key, v)])⟩) := by
  have haccess := Heap.lookup_collecting hR hne hnew
  rw [Realm.putProperty, Run.outcome_bind_of_ok (Run.outcome_get _)]
  show (Except.ok (), Store.mk vars ((base.collecting R entries).update base.objects.length
    fun o => if (base.collecting R entries).lookup base.objects.length key =
      some .prototypeAccess then o.inherit v else o.define key v)) = _
  simp only [if_neg haccess, Heap.update_collecting hnew]

theorem outcome_copyKey (hR : R.Intact base) (hm : vars "m" = some (.object m))
    (hexports : vars "exports" = some (.object base.objects.length))
    (hkey : vars "n" = some (.string key)) (hown : base.own? m key = some (.value v))
    (hne : key ≠ "__proto__") (hnew : key ∉ entries.map Prod.fst) :
    (exec R.world keysOf copyKey).outcome ⟨vars, base.collecting R entries⟩ =
      (.ok (), ⟨vars, base.collecting R (entries ++ [(key, v)])⟩) := by
  set store : Store Heap := ⟨vars, base.collecting R entries⟩ with hstore
  have hread : (eval R.world (.ofName "n")).outcome store = (.ok (.string key), store) :=
    outcome_read_of_some hkey
  have hvalue : (eval R.world (.ofName "m")).outcome store = (.ok (.object m), store) :=
    outcome_read_of_some hm
  have hcollected : (eval R.world (.ofName "exports")).outcome store =
      (.ok (.object base.objects.length), store) := outcome_read_of_some hexports
  have hlookup : store.rest.lookup m key = some (.value v) :=
    Heap.lookup_own ((Heap.own?_collecting (Heap.lt_of_own? hown) key).trans hown)
  have htarget : (refer R.world ((Expr.ofName "exports").lookup (.ofName "n"))).outcome store =
      (.ok (.property (.object base.objects.length) (.string key)), store) := by
    rw [refer_lookup, Run.outcome_bind_of_ok hcollected, Run.outcome_bind_of_ok hread,
      Run.outcome_pure]
  have hput : (R.world.put v (.property (.object base.objects.length) (.string key))).outcome store =
      (.ok (), ⟨vars, base.collecting R (entries ++ [(key, v)])⟩) :=
    Realm.outcome_putProperty hR vars hne hnew v
  show (do let _ ← eval R.world (.assignTo (.expr ((Expr.ofName "exports").lookup (.ofName "n")))
    ((Expr.ofName "m").lookup (.ofName "n")))).outcome store = _
  have hassign : (eval R.world (.assignTo (.expr ((Expr.ofName "exports").lookup (.ofName "n")))
      ((Expr.ofName "m").lookup (.ofName "n")))).outcome store =
        (.ok v, ⟨vars, base.collecting R (entries ++ [(key, v)])⟩) := by
    rw [eval_assignTo_expr, storeTo, Run.outcome_bind_of_ok htarget,
      Run.outcome_bind_of_ok (Realm.outcome_lookup hvalue hread hlookup),
      Run.outcome_bind_of_ok hput, Run.outcome_pure]
  rw [Run.outcome_bind_of_ok hassign]
  rfl

/-- What the loop does for one key. -/
def visitKey (R : Realm) (ownNames : Option String) (key : String) : Run Heap Unit := do
  write "n" (.string key)
  exec R.world keysOf (.block [.ifThen (guard ownNames) copyKey])

/-- The variables with a key in that of the loop. -/
def atKey (key : String) (vars : String → Option Value) : String → Option Value :=
  fun x => if x = "n" then some (.string key) else vars x

theorem visitKeys_cons (R : Realm) (ownNames : Option String) (key : String) (keys : List String) :
    (key :: keys).forM (visitKey R ownNames) =
      visitKey R ownNames key >>= fun _ => keys.forM (visitKey R ownNames) := rfl

theorem outcome_visitKey_of_guard {b : Bool} {heap : Heap}
    (hguard : (eval R.world (guard ownNames)).outcome ⟨atKey key vars, heap⟩ =
      (.ok (.boolean b), ⟨atKey key vars, heap⟩)) :
    (visitKey R ownNames key).outcome ⟨vars, heap⟩ =
      if b then (exec R.world keysOf copyKey).outcome ⟨atKey key vars, heap⟩
      else (.ok (), ⟨atKey key vars, heap⟩) := by
  have hwrite : (write "n" (.string key) : Run Heap Unit).outcome ⟨vars, heap⟩ =
      (.ok (), ⟨atKey key vars, heap⟩) := outcome_write "n" (.string key) ⟨vars, heap⟩
  have hblock : exec R.world keysOf (.block [.ifThen (guard ownNames) copyKey]) = (do
      if (← eval R.world (guard ownNames)).isTruthy then exec R.world keysOf copyKey) := by
    show ((do if (← eval R.world (guard ownNames)).isTruthy then exec R.world keysOf copyKey) >>=
      fun _ => pure ()) = _
    exact bind_pure _
  rw [visitKey, Run.outcome_bind_of_ok hwrite, hblock, Run.outcome_bind_of_ok hguard]
  cases b <;> rfl

theorem outcome_visitKey_of_error {e : Value} {heap : Heap}
    (hguard : (eval R.world (guard ownNames)).outcome ⟨atKey key vars, heap⟩ =
      (.error e, ⟨atKey key vars, heap⟩)) :
    (visitKey R ownNames key).outcome ⟨vars, heap⟩ = (.error e, ⟨atKey key vars, heap⟩) := by
  have hwrite : (write "n" (.string key) : Run Heap Unit).outcome ⟨vars, heap⟩ =
      (.ok (), ⟨atKey key vars, heap⟩) := outcome_write "n" (.string key) ⟨vars, heap⟩
  have hif : (do if (← eval R.world (guard ownNames)).isTruthy then
      exec R.world keysOf copyKey).outcome ⟨atKey key vars, heap⟩ =
        (.error e, ⟨atKey key vars, heap⟩) := Run.outcome_bind_of_error hguard _
  rw [visitKey, Run.outcome_bind_of_ok hwrite]
  exact Run.outcome_bind_of_error hif _

end

/-- What the function runs on: the object whose names it forwards and, where there are names that
take precedence, the list of these. -/
structure Forwards (R : Realm) (m list : Nat) (names : List String) (ownNames : Option String)
    (base : Heap) : Prop where
  intact : R.Intact base
  known : m < base.objects.length
  unlisted : ownNames = none → names = []
  lists : ∀ name ∈ ownNames, base.Lists R list names
  free : "n" ∉ ownNames

/-- What the variables stand for that the function reads. -/
structure Sees (R : Realm) (m exports list : Nat) (ownNames : Option String)
    (vars : String → Option Value) : Prop where
  value : vars "m" = some (.object m)
  exports : vars "exports" = some (.object exports)
  object : vars "Object" = some (.object R.object)
  list : ∀ name ∈ ownNames, vars name = some (.object list)

section
variable {R : Realm} {m list : Nat} {names : List String} {ownNames : Option String}
  {key : String} {base : Heap} {entries : List (String × Value)} {vars : String → Option Value}

theorem atKey_of_ne {x : String} (hx : x ≠ "n") : atKey key vars x = vars x := if_neg hx

theorem Sees.atKey {exports : Nat} (hsees : Sees R m exports list ownNames vars)
    (hfree : "n" ∉ ownNames) (key : String) : Sees R m exports list ownNames (atKey key vars) where
  value := hsees.value
  exports := hsees.exports
  object := hsees.object
  list name hname :=
    (atKey_of_ne (by rintro rfl; exact hfree hname)).trans (hsees.list name hname)

theorem forwardedFrom_cons_of_pass (keys : List String) {v : Value}
    (hown : base.own? m key = some (.value v)) (hne : key ≠ "default") (hout : key ∉ names) :
    forwardedFrom base m names (key :: keys) = (key, v) :: forwardedFrom base m names keys :=
  ownUnless_cons_of_not_skip keys hown (not_or.mpr ⟨hne, hout⟩)

theorem forwardedFrom_cons_of_skip (keys : List String)
    (hskip : key = "default" ∨ key ∈ names ∨ base.own? m key = none) :
    forwardedFrom base m names (key :: keys) = forwardedFrom base m names keys :=
  ownUnless_cons_of_skip keys (or_assoc.mpr hskip)

variable (h : Forwards R m list names ownNames base)
include h

/-- The guard, where the loop asks it. -/
theorem Forwards.outcome_guard (entries : List (String × Value))
    (hsees : Sees R m base.objects.length list ownNames vars)
    (hproto : key ≠ "__proto__" ∨ base.own? m key = none) :
    (("hasOwnProperty" ∈ names → key = "default" ∨ base.own? m key = none) →
      (eval R.world (guard ownNames)).outcome ⟨atKey key vars, base.collecting R entries⟩ =
        (.ok (.boolean (key != "default" && (base.own? m key).isSome && !names.contains key)),
          ⟨atKey key vars, base.collecting R entries⟩)) ∧
    ("hasOwnProperty" ∈ names → key ≠ "default" → base.own? m key ≠ none →
      (eval R.world (guard ownNames)).outcome ⟨atKey key vars, base.collecting R entries⟩ =
        (.error R.typeError, ⟨atKey key vars, base.collecting R entries⟩)) := by
  have hintact : R.Intact (base.collecting R entries) := h.intact.mono Heap.extends_collecting
  have hown : (base.collecting R entries).own? m key = base.own? m key :=
    Heap.own?_collecting h.known key
  have hsees' := hsees.atKey h.free key
  have hlists : ∀ name ∈ ownNames, atKey key vars name = some (.object list) ∧
      (base.collecting R entries).Lists R list names := fun name hname =>
    ⟨hsees'.list name hname, Heap.lists_collecting (h.lists name hname)⟩
  constructor
  · intro hsafe
    rw [Dynamic.outcome_guard hintact hsees'.value hsees'.object rfl h.unlisted hlists (hown ▸ hproto)
      (hown ▸ hsafe), hown]
  · intro hhides hne hmine
    exact outcome_guard_error hintact hsees'.value hsees'.object rfl h.unlisted hlists hhides hne
      (hown ▸ hmine)

/-- The loop collects what is to be passed on. -/
theorem Forwards.outcome_visitKeys (entries : List (String × Value)) (keys : List String)
    (hsees : Sees R m base.objects.length list ownNames vars)
    (hvalues : ∀ key ∈ keys, ∀ c, base.own? m key = some c → key ≠ "__proto__" ∧ ∃ v, c = .value v)
    (hsafe : "hasOwnProperty" ∈ names → ∀ key ∈ keys, key = "default" ∨ base.own? m key = none)
    (hnodup : (entries.map Prod.fst ++ (forwardedFrom base m names keys).map Prod.fst).Nodup) :
    ∃ vars', (∀ x, x ≠ "n" → vars' x = vars x) ∧
      (keys.forM (visitKey R ownNames)).outcome ⟨vars, base.collecting R entries⟩ =
        (.ok (), ⟨vars', base.collecting R (entries ++ forwardedFrom base m names keys)⟩) := by
  induction keys generalizing vars entries with
  | nil =>
    refine ⟨vars, fun _ _ => rfl, ?_⟩
    rw [forwardedFrom, List.filterMap_nil, List.append_nil]
    rfl
  | cons key keys ih =>
    obtain ⟨hvalue, hvalues⟩ := List.forall_mem_cons.mp hvalues
    have hproto : key ≠ "__proto__" ∨ base.own? m key = none := by
      cases hc : base.own? m key with
      | none => exact .inr rfl
      | some c => exact .inl (hvalue c hc).1
    have hstep := outcome_visitKey_of_guard ((h.outcome_guard entries hsees hproto).1
      fun hhides => hsafe hhides key List.mem_cons_self)
    have hrest := fun hhides key hkey => hsafe hhides key (List.mem_cons_of_mem _ hkey)
    have hsees' := hsees.atKey h.free key
    by_cases hpass : key ≠ "default" ∧ base.own? m key ≠ none ∧ key ∉ names
    · obtain ⟨hne, hmine, hout⟩ := hpass
      obtain ⟨v, hown⟩ : ∃ v, base.own? m key = some (.value v) := by
        obtain ⟨c, hc⟩ := Option.ne_none_iff_exists'.mp hmine
        obtain ⟨-, v, rfl⟩ := hvalue c hc
        exact ⟨v, hc⟩
      have hforwarded := forwardedFrom_cons_of_pass keys hown hne hout
      rw [hforwarded, List.map_cons] at hnodup
      have hnew : key ∉ entries.map Prod.fst := fun hmem =>
        (List.nodup_append.mp hnodup).2.2 key hmem key List.mem_cons_self rfl
      have hcopy := outcome_copyKey h.intact hsees'.value hsees'.exports rfl hown
        (hproto.resolve_right hmine) hnew
      have hguarded : (key != "default" && (base.own? m key).isSome && !names.contains key) = true := by
        simp [hne, hown, hout]
      rw [if_pos hguarded] at hstep
      have hnodup' : ((entries ++ [(key, v)]).map Prod.fst ++
          (forwardedFrom base m names keys).map Prod.fst).Nodup := by simpa using hnodup
      obtain ⟨vars', hvars', hloop⟩ := ih _ hsees' hvalues hrest hnodup'
      refine ⟨vars', fun x hx => (hvars' x hx).trans (atKey_of_ne hx), ?_⟩
      rw [visitKeys_cons, Run.outcome_bind_of_ok (hstep.trans hcopy), hloop, hforwarded,
        List.append_assoc, List.singleton_append]
    · have hskip : key = "default" ∨ key ∈ names ∨ base.own? m key = none := by
        by_contra hno
        simp only [not_or] at hno
        exact hpass ⟨hno.1, hno.2.2, hno.2.1⟩
      have hforwarded := forwardedFrom_cons_of_skip keys hskip
      have hguarded : ¬(key != "default" && (base.own? m key).isSome && !names.contains key) =
          true := by
        rcases hskip with hskip | hskip | hskip <;> simp [hskip]
      rw [if_neg hguarded] at hstep
      rw [hforwarded] at hnodup ⊢
      obtain ⟨vars', hvars', hloop⟩ := ih _ hsees' hvalues hrest hnodup
      refine ⟨vars', fun x hx => (hvars' x hx).trans (atKey_of_ne hx), ?_⟩
      rw [visitKeys_cons, Run.outcome_bind_of_ok hstep]
      exact hloop

/-- The loop fails at the first key that is left to ask about, where the list hides the method. -/
theorem Forwards.outcome_visitKeys_error (hhides : "hasOwnProperty" ∈ names)
    (entries : List (String × Value)) (keys : List String)
    (hsees : Sees R m base.objects.length list ownNames vars)
    (hproto : ∀ key ∈ keys, key ≠ "__proto__" ∨ base.own? m key = none)
    (hasked : ∃ key ∈ keys, key ≠ "default" ∧ base.own? m key ≠ none) :
    ∃ vars', (keys.forM (visitKey R ownNames)).outcome ⟨vars, base.collecting R entries⟩ =
      (.error R.typeError, ⟨vars', base.collecting R entries⟩) := by
  induction keys generalizing vars with
  | nil =>
    obtain ⟨key, hkey, -⟩ := hasked
    cases hkey
  | cons key keys ih =>
    obtain ⟨hproto, hprotos⟩ := List.forall_mem_cons.mp hproto
    have hguard := h.outcome_guard entries hsees hproto
    by_cases hthis : key = "default" ∨ base.own? m key = none
    · have hstep := outcome_visitKey_of_guard (hguard.1 fun _ => hthis)
      have hguarded : ¬(key != "default" && (base.own? m key).isSome && !names.contains key) =
          true := by
        rcases hthis with hthis | hthis <;> simp [hthis]
      rw [if_neg hguarded] at hstep
      have hlater : ∃ key ∈ keys, key ≠ "default" ∧ base.own? m key ≠ none := by
        obtain ⟨other, hother, hne, hmine⟩ := hasked
        rcases List.mem_cons.mp hother with rfl | hother
        · exact (hthis.elim hne hmine).elim
        · exact ⟨other, hother, hne, hmine⟩
      obtain ⟨vars', hloop⟩ := ih (hsees.atKey h.free key) hprotos hlater
      refine ⟨vars', ?_⟩
      rw [visitKeys_cons, Run.outcome_bind_of_ok hstep]
      exact hloop
    · obtain ⟨hne, hmine⟩ := not_or.mp hthis
      have hstep := outcome_visitKey_of_error (hguard.2 hhides hne hmine)
      refine ⟨atKey key vars, ?_⟩
      rw [visitKeys_cons, Run.outcome_bind_of_error hstep]

end

/-! ## The call -/

/-- The object has no key twice, and what loops see of it are values, `__proto__` not among them. -/
structure Obj.IsPlain (o : Obj) : Prop where
  keysOnce : (o.slots.map (·.key)).Nodup
  values : ∀ s ∈ o.slots, s.isEnumerable = true → s.key ≠ "__proto__" ∧ ∃ v, s.content = .value v

/-- What is to be passed on of an object. -/
def Obj.others (o : Obj) (names : List String) : List (String × Value) :=
  o.entries.filter fun entry => entry.1 ≠ "default" ∧ entry.1 ∉ names

section
variable {o : Obj} {base h : Heap} {m : Nat} {names : List String} (hplain : o.IsPlain)
include hplain

theorem Obj.IsPlain.nodup_entries : (o.entries.map Prod.fst).Nodup := by
  have hkeys : (o.entries.map Prod.fst).Sublist (o.slots.map (·.key)) := by
    unfold Obj.entries
    induction o.slots with
    | nil => exact .refl _
    | cons s slots ih =>
      rw [List.filterMap_cons]
      split
      · exact ih.cons _
      · next hs =>
        split at hs
        · split at hs
          · cases hs
            exact ih.cons_cons _
          · cases hs
        · cases hs
  exact hplain.keysOnce.sublist hkeys

theorem Obj.IsPlain.nodup_others : ((o.others names).map Prod.fst).Nodup :=
  hplain.nodup_entries.sublist (List.filter_sublist.map Prod.fst)

variable (hbase : base.objects[m]? = some o) (hh : h.objects[m]? = some o)
include hbase

theorem Obj.IsPlain.own? {s : Slot} (hs : s ∈ o.slots) : base.own? m s.key = some s.content := by
  rw [Heap.own?, hbase]
  exact Obj.content?_of_mem hplain.keysOnce hs

include hh

omit hplain in
/-- A key that the loop sees is one of the object that can be seen, or the object does not have it. -/
theorem Heap.of_mem_keys {key : String} (hkey : key ∈ h.keys m) :
    (∃ s ∈ o.slots, s.isEnumerable = true ∧ s.key = key) ∨ base.own? m key = none := by
  obtain ⟨inherited, hkeys, hinherited⟩ := Heap.keys_eq hh
  rw [hkeys] at hkey
  rcases List.mem_append.mp hkey with hkey | hkey
  · obtain ⟨s, hs, rfl⟩ := List.mem_map.mp hkey
    obtain ⟨hs, hseen⟩ := List.mem_filter.mp hs
    exact .inl ⟨s, hs, hseen, rfl⟩
  · have hnone := hinherited key hkey
    rw [Heap.own?, hh] at hnone
    rw [Heap.own?, hbase]
    exact .inr hnone

/-- What a loop over the keys of an object comes by is a value, or it is not the object's own. -/
theorem Obj.IsPlain.value_of_mem_keys : ∀ key ∈ h.keys m, ∀ c, base.own? m key = some c →
    key ≠ "__proto__" ∧ ∃ v, c = .value v := by
  intro key hkey c hc
  rcases Heap.of_mem_keys hbase hh hkey with ⟨s, hs, hseen, rfl⟩ | hnone
  · rw [hplain.own? hbase hs] at hc
    cases hc
    exact hplain.values s hs hseen
  · rw [hnone] at hc
    cases hc

/-- A loop over the keys of an object comes by all its entries in turn. -/
theorem Obj.IsPlain.ownUnless_keys (skip : String → Prop) [DecidablePred skip] :
    ownUnless base m skip (h.keys m) = o.entries.filter fun entry => ¬ skip entry.1 := by
  obtain ⟨inherited, hkeys, hinherited⟩ := Heap.keys_eq hh
  have hnothing : ownUnless base m skip inherited = [] := by
    refine List.filterMap_eq_nil_iff.mpr fun key hkey => ?_
    have hnone : base.own? m key = none := by
      rw [Heap.own?, hbase, ← hh]
      exact hinherited key hkey
    rw [hnone, ite_self]
  have hown : ownUnless base m skip ((o.slots.filter (·.isEnumerable)).map (·.key)) =
      o.entries.filter fun entry => ¬ skip entry.1 := by
    unfold ownUnless Obj.entries
    rw [List.filterMap_map, List.filterMap_filter, List.filter_filterMap]
    refine List.filterMap_congr fun s hs => ?_
    have hcontent := hplain.own? hbase hs
    simp only [Function.comp_apply, hcontent]
    cases hseen : s.isEnumerable with
    | false => cases s.content <;> rfl
    | true =>
      obtain ⟨-, v, hv⟩ := hplain.values s hs hseen
      rw [hv]
      by_cases hskip : skip s.key <;> simp [hskip, Option.filter_some]
  have happend : ownUnless base m skip
      ((o.slots.filter (·.isEnumerable)).map (·.key) ++ inherited) =
        ownUnless base m skip ((o.slots.filter (·.isEnumerable)).map (·.key)) ++
          ownUnless base m skip inherited := List.filterMap_append
  rw [hkeys, happend, hown, hnothing, List.append_nil]

theorem Obj.IsPlain.forwardedFrom_keys :
    forwardedFrom base m names (h.keys m) = o.others names := by
  rw [forwardedFrom_eq, hplain.ownUnless_keys hbase hh, Obj.others]
  simp only [not_or, ne_eq]

end

/-- The list hides the method that it is asked with, and there is a key to ask about. -/
def Obj.IsRefused (o : Obj) (names : List String) : Prop :=
  "hasOwnProperty" ∈ names ∧ ∃ s ∈ o.slots, s.isEnumerable = true ∧ s.key ≠ "default"

/-- What comes of forwarding the names of an object: either all that is to be passed on is passed
on at once, or an error is thrown and nothing is. -/
def Forwarded (R : Realm) (base : Heap) (o : Obj) (names : List String)
    (result : Except Value Unit × Store Heap) : Prop :=
  (¬ o.IsRefused names → result.1 = .ok () ∧
    result.2.rest.passed = base.passed ++ [o.others names]) ∧
  (o.IsRefused names → result.1 = .error R.typeError ∧ result.2.rest.passed = base.passed)

section
variable {σ : Type} {w : World σ} {keys : Value → Run σ (List String)} {st : Stmt} {sts : List Stmt}
  {store store' : Store σ}

theorem outcome_execAll_of_ok (hst : (exec w keys st).outcome store = (.ok (), store')) :
    (execAll w keys (st :: sts)).outcome store = (execAll w keys sts).outcome store' :=
  Run.outcome_bind_of_ok hst _

theorem outcome_execAll_of_error {e : Value}
    (hst : (exec w keys st).outcome store = (.error e, store')) :
    (execAll w keys (st :: sts)).outcome store = (.error e, store') :=
  Run.outcome_bind_of_error hst _

theorem outcome_applyName {name : String} {f : Value} {args : List Expr} {vs : List Value}
    (hread : (read w name).outcome store = (.ok f, store)) (hspread : args.any isSpread = false)
    (hargs : (evalEach w args).outcome store = (.ok vs, store)) :
    (eval w ((Expr.ofName name).apply args)).outcome store =
      (w.call f .undefined vs).outcome store := by
  rw [eval_applyName w name hspread, Run.outcome_bind_of_ok hread, Run.outcome_bind_of_ok hargs]

theorem outcome_exec_expr {e : Expr} {v : Value}
    (he : (eval w e).outcome store = (.ok v, store')) :
    (exec w keys (.expr e)).outcome store = (.ok (), store') :=
  Run.outcome_bind_of_ok he _

end

/-- What the caller does with the variables afterwards. -/
theorem Forwarded.then_modify {R : Realm} {base : Heap} {o : Obj} {names : List String}
    {x : Run Heap Unit} {store : Store Heap} {change : Store Heap → Store Heap}
    (hchange : ∀ store, (change store).rest = store.rest)
    (hx : Forwarded R base o names (x.outcome store)) :
    Forwarded R base o names ((do x; modify change).outcome store) := by
  rcases hresult : x.outcome store with ⟨e | u, store'⟩
  · rw [Run.outcome_bind_of_error hresult]
    rwa [hresult] at hx
  · rw [Run.outcome_bind_of_ok hresult, Run.outcome_modify]
    rw [hresult] at hx
    simpa only [Forwarded, hchange] using hx

theorem locals_forwarder (exporter name : String) (ownNames : Option String) :
    locals (forwarder exporter name ownNames) = ["m", "exports", "n"] := rfl

section
variable {R : Realm} {m list : Nat} {names : List String} {ownNames : Option String} {o : Obj}
  {exporter : String} {base : Heap} {vars : String → Option Value}
  (h : Forwards R m list names ownNames base) (ho : base.objects[m]? = some o) (hplain : o.IsPlain)
include h ho hplain

/-- The body of the function runs. -/
theorem Forwards.outcome_body (vars : String → Option Value) (hm : vars "m" = some (.object m))
    (hobject : vars "Object" = some (.object R.object))
    (hlist : ∀ name ∈ ownNames, name ≠ "exports" ∧ vars name = some (.object list))
    (hexporter : exporter ≠ "exports" ∧ exporter ≠ "n" ∧ vars exporter = some (.object R.exporter))
    (name : String) :
    Forwarded R base o names ((execAll R.world keysOf (forwarder exporter name ownNames).body).outcome
      ⟨vars, base⟩) := by
  set vars₁ : String → Option Value :=
    fun x => if x = "exports" then some (.object base.objects.length) else vars x with hvars₁
  have hfirst : (exec R.world keysOf (.varInit "exports" (some (.object [])))).outcome ⟨vars, base⟩ =
      (.ok (), ⟨vars₁, base.collecting R []⟩) := rfl
  have hsees : Sees R m base.objects.length list ownNames vars₁ := {
    value := hm
    exports := rfl
    object := hobject
    list := fun name hname => (if_neg (hlist name hname).1).trans (hlist name hname).2 }
  have hknown : (base.collecting R []).objects[m]? = some o :=
    (Heap.extends_collecting m h.known).trans ho
  set keys := (base.collecting R []).keys m with hkeys
  have hloop : exec R.world keysOf (.forIn (.var ⟨.var, [.ofName "n" none]⟩) (.ofName "m")
      (.block [.ifThen (guard ownNames) copyKey])) = (do
        let v ← eval R.world (.ofName "m")
        (← keysOf v).forM (visitKey R ownNames)) := rfl
  have hvalue : (eval R.world (.ofName "m")).outcome ⟨vars₁, base.collecting R []⟩ =
      (.ok (.object m), ⟨vars₁, base.collecting R []⟩) := outcome_read_of_some hsees.value
  have hseen : (keysOf (.object m)).outcome ⟨vars₁, base.collecting R []⟩ =
      (.ok keys, ⟨vars₁, base.collecting R []⟩) := rfl
  have hrun : (exec R.world keysOf (.forIn (.var ⟨.var, [.ofName "n" none]⟩) (.ofName "m")
      (.block [.ifThen (guard ownNames) copyKey]))).outcome ⟨vars₁, base.collecting R []⟩ =
        (keys.forM (visitKey R ownNames)).outcome ⟨vars₁, base.collecting R []⟩ := by
    rw [hloop, Run.outcome_bind_of_ok hvalue, Run.outcome_bind_of_ok hseen]
  have hforwarded : forwardedFrom base m names keys = o.others names :=
    hplain.forwardedFrom_keys ho hknown
  have hvalues : ∀ key ∈ keys, ∀ c, base.own? m key = some c →
      key ≠ "__proto__" ∧ ∃ v, c = .value v := hplain.value_of_mem_keys ho hknown
  constructor
  · intro hfree
    have hsafe : "hasOwnProperty" ∈ names → ∀ key ∈ keys,
        key = "default" ∨ base.own? m key = none := by
      intro hhides key hkey
      refine (Heap.of_mem_keys ho hknown hkey).imp_left ?_
      rintro ⟨s, hs, hseen, rfl⟩
      by_contra hne
      exact hfree ⟨hhides, s, hs, hseen, hne⟩
    obtain ⟨vars₂, hvars₂, hvisit⟩ := h.outcome_visitKeys [] keys hsees hvalues hsafe
      (by rw [hforwarded]; exact hplain.nodup_others)
    rw [List.nil_append, hforwarded] at hvisit
    have hread : (read R.world exporter).outcome
        ⟨vars₂, base.collecting R (o.others names)⟩ =
          (.ok (.object R.exporter), ⟨vars₂, base.collecting R (o.others names)⟩) :=
      outcome_read_of_some ((hvars₂ _ hexporter.2.1).trans
        ((if_neg hexporter.1).trans hexporter.2.2))
    have hcollected : (eval R.world (.ofName "exports")).outcome
        ⟨vars₂, base.collecting R (o.others names)⟩ =
          (.ok (.object base.objects.length), ⟨vars₂, base.collecting R (o.others names)⟩) :=
      outcome_read_of_some ((hvars₂ "exports" (by decide)).trans hsees.exports)
    have hpass : (R.call (.object R.exporter) .undefined [.object base.objects.length]).outcome
        ⟨vars₂, base.collecting R (o.others names)⟩ = _ :=
      Realm.outcome_export h.intact Heap.collecting_last
    rw [Obj.entries_ofEntries] at hpass
    have hcall := (outcome_applyName hread rfl
      (outcome_evalEach_cons hcollected outcome_evalEach_nil)).trans hpass
    rw [forwarder, outcome_execAll_of_ok hfirst, outcome_execAll_of_ok (hrun.trans hvisit),
      outcome_execAll_of_ok (outcome_exec_expr hcall)]
    exact ⟨rfl, rfl⟩
  · rintro ⟨hhides, s, hs, hshown, hne⟩
    have hproto : ∀ key ∈ keys, key ≠ "__proto__" ∨ base.own? m key = none := by
      intro key hkey
      cases hc : base.own? m key with
      | none => exact .inr rfl
      | some c => exact .inl (hvalues key hkey c hc).1
    have hasked : ∃ key ∈ keys, key ≠ "default" ∧ base.own? m key ≠ none := by
      obtain ⟨inherited, hkeys', -⟩ := Heap.keys_eq hknown
      refine ⟨s.key, ?_, hne, by simp [hplain.own? ho hs]⟩
      rw [hkeys, hkeys']
      exact List.mem_append_left _ (List.mem_map_of_mem (List.mem_filter.mpr ⟨hs, hshown⟩))
    obtain ⟨vars₂, hvisit⟩ := h.outcome_visitKeys_error hhides [] keys hsees hproto hasked
    rw [forwarder, outcome_execAll_of_ok hfirst, outcome_execAll_of_error (hrun.trans hvisit)]
    exact ⟨rfl, rfl⟩

/-- The function is called. Its variables are `m`, `exports` and `n`. -/
theorem Forwards.outcome_invoke (vars : String → Option Value) (hobject : vars "Object" = some (.object R.object))
    (hlist : ∀ name ∈ ownNames, name ∉ ["m", "exports", "n"] ∧ vars name = some (.object list))
    (hexporter : exporter ∉ ["m", "exports", "n"] ∧ vars exporter = some (.object R.exporter))
    (name : String) :
    Forwarded R base o names ((invoke R.world keysOf (forwarder exporter name ownNames)
      [.object m]).outcome ⟨vars, base⟩) := by
  have hkept : ∀ {x : String} (f : String → Option Value), x ∉ ["m", "exports", "n"] →
      ((⟨vars, base⟩ : Store Heap).holding ["m", "exports", "n"] f).vars x = vars x :=
    fun f hx => Store.vars_holding_of_not_mem hx f _
  have hbody := h.outcome_body ho hplain
    ((⟨vars, base⟩ : Store Heap).holding ["m", "exports", "n"] fun x => some
      ((["m"].zip [Value.object m]).lookup x |>.getD .undefined)).vars
    (Store.vars_holding_of_mem List.mem_cons_self _ _)
    ((hkept _ (by decide)).trans hobject)
    (fun x hx => ⟨by rintro rfl; exact (hlist _ hx).1 (by decide),
      (hkept _ (hlist x hx).1).trans (hlist x hx).2⟩)
    ⟨by rintro rfl; exact hexporter.1 (by decide), by rintro rfl; exact hexporter.1 (by decide),
      (hkept _ hexporter.1).trans hexporter.2⟩ name
  exact hbody.then_modify fun _ => rfl

end

/-- The statements run, and the function among them is called on an object. -/
def forward (R : Realm) (stmts : List Stmt) (name : String) (m : Nat) : Run Heap Unit := do
  execAll R.world keysOf stmts
  callDeclared R.world keysOf stmts name [.object m]

section
variable {R : Realm} {base : Heap} {m : Nat} {o : Obj} {exporter : String}
  {vars : String → Option Value} (hR : R.Intact base) (ho : base.objects[m]? = some o)
  (hplain : o.IsPlain) (hobject : vars "Object" = some (.object R.object))
  (hexporter : exporter ∉ ["m", "exports", "n"] ∧ vars exporter = some (.object R.exporter))
include hR ho hplain hobject hexporter

theorem forwarded_none (name : String) :
    Forwarded R base o [] ((forward R [.function {} (forwarder exporter name none)] name m).outcome
      ⟨vars, base⟩) := by
  have h : Forwards R m 0 [] none base := {
    intact := hR
    known := (List.getElem?_eq_some_iff.mp ho).1
    unlisted := fun _ => rfl
    lists := fun name hname => by cases hname
    free := fun hname => by cases hname }
  have hfound : functionIn? [.function {} (forwarder exporter name none)] name =
      some (forwarder exporter name none) := by
    simp [functionIn?, forwarder, Ident.synthetic]
  have hcalled := h.outcome_invoke ho hplain vars hobject (fun _ hname => by cases hname) hexporter name
  show Forwarded R base o [] ((callDeclared R.world keysOf _ name [.object m]).outcome ⟨vars, base⟩)
  rw [callDeclared, hfound]
  exact hcalled

theorem forwarded_map {names : List String} (hnodup : names.Nodup) {map : String}
    (hmap : map ∉ ["m", "exports", "n", "Object", exporter]) (name : String) :
    Forwarded R base o names ((forward R
      [.varInit map (some (.object (names.map fun name => .ofString name (.ofBool true)))),
        .function {} (forwarder exporter name (some map))] name m).outcome ⟨vars, base⟩) := by
  obtain ⟨hfree, hobject', hexporter'⟩ : map ∉ ["m", "exports", "n"] ∧ "Object" ≠ map ∧
      exporter ≠ map := by
    simp only [List.mem_cons, List.not_mem_nil, or_false, not_or] at hmap ⊢
    exact ⟨⟨hmap.1, hmap.2.1, hmap.2.2.1⟩, Ne.symm hmap.2.2.2.1, Ne.symm hmap.2.2.2.2⟩
  set stmts : List Stmt :=
    [.varInit map (some (.object (names.map fun name => .ofString name (.ofBool true)))),
      .function {} (forwarder exporter name (some map))] with hstmts
  set vars' : String → Option Value :=
    fun x => if x = map then some (.object base.objects.length) else vars x with hvars'
  set base' : Heap := { base with objects := base.objects ++
    [R.objectOf (names.map fun name => (name, .boolean true))] } with hbase'
  have hext : base.Extends base' := fun _ hid => List.getElem?_append_left hid
  have hvalue : (eval R.world (.object (names.map fun name => .ofString name (.ofBool true)))).outcome
      ⟨vars, base⟩ = (.ok (.object base.objects.length), ⟨vars, base'⟩) := by
    rw [eval_object, R.other_object (Realm.mapM_entry? names)]
    rfl
  have hlisted : (execAll R.world keysOf stmts).outcome ⟨vars, base⟩ =
      (.ok (), ⟨vars', base'⟩) := by
    have hdeclare : (exec R.world keysOf (.varInit map (some (.object
        (names.map fun name => .ofString name (.ofBool true)))))).outcome ⟨vars, base⟩ =
          (.ok (), ⟨vars', base'⟩) := by
      show ((eval R.world (.object (names.map fun name => .ofString name (.ofBool true))) >>=
        fun v => write map v) >>= fun _ => pure ()).outcome _ = _
      rw [bind_assoc, Run.outcome_bind_of_ok hvalue]
      rfl
    rw [hstmts, outcome_execAll_of_ok hdeclare]
    rfl
  have h : Forwards R m base.objects.length names (some map) base' := {
    intact := hR.mono hext
    known := Nat.lt_of_lt_of_le (List.getElem?_eq_some_iff.mp ho).1 (by simp [hbase'])
    unlisted := fun hname => by cases hname
    lists := by
      intro name hname
      rw [Heap.Lists, ← R.objectOf_true hnodup]
      simp [hbase']
    free := by
      intro hname
      obtain rfl : map = "n" := Option.some.inj hname
      exact hfree (by decide) }
  have hfound : functionIn? stmts name = some (forwarder exporter name (some map)) := by
    simp [hstmts, functionIn?, forwarder, Ident.synthetic, Stmt.varInit]
  have hcalled := h.outcome_invoke
    ((hext m (List.getElem?_eq_some_iff.mp ho).1).trans ho) hplain vars' ((if_neg hobject').trans hobject)
    (fun x hx => by obtain rfl := Option.some.inj hx; exact ⟨hfree, if_pos rfl⟩)
    ⟨hexporter.1, (if_neg hexporter').trans hexporter.2⟩ name
  rw [forward, Run.outcome_bind_of_ok hlisted, callDeclared, hfound]
  exact hcalled

end

end RegisterForm.Dynamic
