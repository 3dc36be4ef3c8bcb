import RegisterForm.Proofs.Dynamic.Memory
/-!
# The rest of an object at run time

What the function does that a registered module defines under the name `__rest`: it makes an object
that has, of the properties of another object's own that are enumerable, those whose keys are not in
a list. The loop over texts comes first, and then the loop that counts through the symbols.
-/
namespace RegisterForm.Dynamic

/-! ## Arrays -/

section
variable {h : Heap} {id proto : Nat} {elements : List Value}

theorem Obj.keys_ofElements : ((Obj.ofElements elements proto).slots.map (·.key)) =
    (List.range elements.length).map Nat.repr ++ ["length"] := by
  rw [Obj.ofElements, List.map_append]
  congr 1
  exact List.ext_getElem (by simp) fun i hi hi' => by simp

theorem Obj.nodup_ofElements :
    ((Obj.ofElements elements proto).slots.map (·.key)).Nodup := by
  rw [Obj.keys_ofElements, List.nodup_append]
  refine ⟨List.nodup_range.map fun _ _ => repr_inj, List.nodup_singleton _, ?_⟩
  rintro key hkey _ (_ | ⟨_, ⟨⟩⟩)
  obtain ⟨i, -, rfl⟩ := List.mem_map.mp hkey
  exact repr_ne_of_head (c := 'l') rfl (by decide)

variable (hid : h.objects[id]? = some (.ofElements elements proto))
include hid

theorem Heap.own?_length : h.own? id "length" = some (.value (.ofInt elements.length)) := by
  rw [Heap.own?, hid, Option.bind_some]
  exact Obj.content?_of_mem Obj.nodup_ofElements
    (s := ⟨"length", .value (.ofInt elements.length), false⟩)
    (List.mem_append_right _ List.mem_cons_self)

theorem Heap.own?_element {i : Nat} {v : Value} (hi : elements[i]? = some v) :
    h.own? id (i.repr) = some (.value v) := by
  rw [Heap.own?, hid, Option.bind_some]
  refine Obj.content?_of_mem Obj.nodup_ofElements (s := ⟨i.repr, .value v, true⟩)
    (List.mem_append_left _ (List.mem_mapIdx.mpr ?_))
  obtain ⟨hlt, rfl⟩ := List.getElem?_eq_some_iff.mp hi
  exact ⟨i, hlt, rfl⟩

theorem Heap.elements_eq : h.elements id = elements := by
  have hlength : h.length id = elements.length := by
    simp [Heap.length, Heap.value, Heap.own?_length hid]
  refine List.ext_getElem (by simp [Heap.elements, hlength]) fun i hi hi' => ?_
  simp [Heap.elements, Heap.value, Heap.own?_element hid (List.getElem?_eq_getElem hi')]

end

/-! ## The built-in objects -/

/-- The built-in objects are as they are made. -/
structure Library.Intact (L : Library) (h : Heap) : Prop extends L.toRealm.Intact h where
  symbols : h.own? L.object "getOwnPropertySymbols" =
    some (.value (.object L.getOwnPropertySymbols))
  enumerable : h.own? L.objectPrototype "propertyIsEnumerable" =
    some (.value (.object L.propertyIsEnumerable))
  enumerableInherits : h.proto? L.propertyIsEnumerable = some L.functionPrototype
  enumerableNoCall : h.own? L.propertyIsEnumerable "call" = none
  indexOf : h.own? L.arrayPrototype "indexOf" = some (.value (.object L.indexOf))
  distinct : L.functions.Nodup
  zero : L.numberText "0" = "0"

namespace Library
variable {L : Library} {h h' : Heap} {M : Memory} {vars : String → Option Value}
  {store : Store Memory} {id : Nat} {key v : Value}

theorem Intact.mono (hL : L.Intact h) (hext : h.Extends h') : L.Intact h' where
  toIntact := hL.toIntact.mono hext
  symbols := (hext.own? (Heap.lt_of_own? hL.symbols) _).trans hL.symbols
  enumerable := (hext.own? (Heap.lt_of_own? hL.enumerable) _).trans hL.enumerable
  enumerableInherits :=
    (hext.proto? (Heap.lt_of_proto? hL.enumerableInherits)).trans hL.enumerableInherits
  enumerableNoCall :=
    (hext.own? (Heap.lt_of_proto? hL.enumerableInherits) _).trans hL.enumerableNoCall
  indexOf := (hext.own? (Heap.lt_of_own? hL.indexOf) _).trans hL.indexOf
  distinct := hL.distinct
  zero := hL.zero

/-- A property with a text for its key is read. -/
theorem outcome_getProperty {text : String} (hkey : key.text? = some text)
    (hlookup : store.rest.heap.lookup id text = some (.value v)) :
    (L.base.getProperty (.object id) key).outcome store = (.ok v, store) := by
  have hread : (L.toRealm.getProperty (.object id) key).outcome ⟨store.vars, store.rest.heap⟩ =
      (.ok v, ⟨store.vars, store.rest.heap⟩) := by
    rw [Realm.getProperty, Run.outcome_bind_of_ok (Run.outcome_get _)]
    simp only [Realm.holder?, hkey, hlookup, Run.outcome_pure]
  cases key with
  | symbol | object => cases hkey
  | undefined | null | boolean | number | string => exact outcome_onHeap hread

/-- A property of an object's own with a symbol for its key is read. -/
theorem outcome_getSymbol {symbol : Nat} {s : SymbolSlot} (hid : id < store.rest.heap.objects.length)
    (hs : store.rest.ownSymbol? id symbol = some s) :
    (L.base.getProperty (.object id) (.symbol symbol)).outcome store = (.ok s.value, store) := by
  obtain ⟨depth, hdepth⟩ := Nat.exists_eq_succ_of_ne_zero (Nat.ne_zero_of_lt hid)
  show (L.getProperty (.object id) (.symbol symbol)).outcome store = _
  rw [getProperty, Run.outcome_bind_of_ok (Run.outcome_get store)]
  simp only [Realm.holder?, hdepth, Memory.findSymbol?, hs, Option.getD_some, Run.outcome_pure]

/-! ## Calls -/

theorem outcome_hasOwnProperty :
    (L.native (.object L.hasOwnProperty) (.object id) [key]).outcome store =
      (.ok (.boolean (store.rest.isEnumerable? id key).isSome), store) := by
  rw [native, Run.outcome_bind_of_ok (Run.outcome_get store)]
  simp

section
variable (hL : L.Intact h)
include hL

theorem outcome_propertyIsEnumerable :
    (L.native (.object L.propertyIsEnumerable) (.object id) [key]).outcome store =
      (.ok (.boolean ((store.rest.isEnumerable? id key).getD false)), store) := by
  have hdistinct := hL.distinct
  rw [native, Run.outcome_bind_of_ok (Run.outcome_get store)]
  simp_all [functions, eq_comm]

theorem outcome_indexOf :
    (L.base.call (.object L.indexOf) (.object id) [key]).outcome store =
      (.ok (.ofInt (store.rest.heap.indexOf id key)), store) := by
  have hdistinct := hL.distinct
  show (L.call _ _ _).outcome store = _
  rw [call, if_neg (by simp_all [functions, eq_comm]), native,
    Run.outcome_bind_of_ok (Run.outcome_get store)]
  simp_all [functions, eq_comm]

theorem outcome_getOwnPropertySymbols {owner : Nat} :
    (L.base.call (.object L.getOwnPropertySymbols) (.object id) [.object owner]).outcome store =
      (L.array ((store.rest.symbols owner).map fun s => .symbol s.symbol)).outcome store := by
  have hdistinct := hL.distinct
  show (L.call _ _ _).outcome store = _
  rw [call, if_neg (by simp_all [functions, eq_comm]), native,
    Run.outcome_bind_of_ok (Run.outcome_get store)]
  simp_all [functions, eq_comm]

end

section
variable (hL : L.Intact store.rest.heap) (hobject : store.vars "Object" = some (.object L.object))
include hL hobject

/-- A method of the prototype of all objects is called on another object. -/
theorem outcome_prototypeCall {method : String} {f : Nat} {owner arg : Expr}
    (hmethod : store.rest.heap.own? L.objectPrototype method = some (.value (.object f)))
    (hinherits : store.rest.heap.proto? f = some L.functionPrototype)
    (hnone : store.rest.heap.own? f "call" = none)
    (howner : (eval L.base owner).outcome store = (.ok (.object id), store))
    (harg : (eval L.base arg).outcome store = (.ok key, store))
    (hspread : [owner, arg].any isSpread = false) :
    (eval L.base (.prototypeCall method owner arg)).outcome store =
      (L.native (.object f) (.object id) [key]).outcome store := by
  have hctor : (eval L.base (.ofName "Object")).outcome store = (.ok (.object L.object), store) :=
    outcome_read_of_some hobject
  have hproto : (eval L.base ((Expr.ofName "Object").dot "prototype")).outcome store =
      (.ok (.object L.objectPrototype), store) :=
    (outcome_dot hctor _).trans (outcome_getProperty rfl (Heap.lookup_own hL.prototype))
  have hfunction : (eval L.base (((Expr.ofName "Object").dot "prototype").dot method)).outcome
      store = (.ok (.object f), store) :=
    (outcome_dot hproto _).trans (outcome_getProperty rfl (Heap.lookup_own hmethod))
  refine (outcome_method hfunction (outcome_getProperty rfl
    (Heap.lookup_inherited hnone hinherits hL.call)) hspread (outcome_evalEach_cons howner
      (outcome_evalEach_cons harg outcome_evalEach_nil))).trans ?_
  show (L.call (.object L.functionCall) (.object f) [.object id, key]).outcome store = _
  rw [call, if_pos rfl]
  rfl

end

theorem outcome_lt {left right : Expr} {a b : Int}
    (hleft : (eval L.base left).outcome store = (.ok (.ofInt a), store))
    (hright : (eval L.base right).outcome store = (.ok (.ofInt b), store)) :
    (eval L.base (.binary .lt left right)).outcome store = (.ok (.boolean (a < b)), store) := by
  rw [eval_binary _ (by decide), Run.outcome_bind_of_ok hleft, Run.outcome_bind_of_ok hright]
  show (L.binary .lt (.ofInt a) (.ofInt b)).outcome store = _
  simp only [binary, Value.int?_ofInt, Run.outcome_pure]

end Library

/-- A key as objects have it. -/
def Value.IsKey : Value → Prop
  | .string _ | .symbol _ => True
  | _ => False

theorem Value.strictEquals_of_isKey {u v : Value} (hv : v.IsKey) :
    u.strictEquals v = (u == v) := by
  cases v <;> first | exact hv.elim | (cases u <;> rfl)

/-- Whether a key is not in the list. -/
theorem Heap.indexOf_lt_zero {h : Heap} {id proto : Nat} {elements : List Value} {key : Value}
    (hid : h.objects[id]? = some (.ofElements elements proto)) (hkey : key.IsKey) :
    h.indexOf id key < 0 ↔ key ∉ elements := by
  rw [Heap.indexOf, Heap.elements_eq hid]
  have hfind : elements.findIdx? (·.strictEquals key) = elements.findIdx? (· == key) :=
    congrArg (List.findIdx? · elements) (funext fun u => Value.strictEquals_of_isKey hkey)
  rw [hfind]
  cases hindex : elements.findIdx? (· == key) with
  | none =>
    have hnone := List.findIdx?_eq_none_iff.mp hindex
    simp only [Option.elim_none]
    exact ⟨fun _ hmem => by simpa using hnone key hmem, fun _ => by decide⟩
  | some i =>
    obtain ⟨hi, hfound, -⟩ := List.findIdx?_eq_some_iff_getElem.mp hindex
    have hmem : key ∈ elements := by
      rw [← beq_iff_eq.mp hfound]
      exact List.getElem_mem hi
    exact ⟨fun hlt => absurd hlt (Int.not_lt.mpr (Int.natCast_nonneg i)),
      fun hnot => absurd hmem hnot⟩

/-- The test that the function makes of a key. -/
theorem Library.outcome_notExcluded {L : Library} {store : Store Memory} {list : Nat}
    {keys : List Value} {e : Expr} {key : Value} (hL : L.Intact store.rest.heap)
    (hlist : store.vars "e" = some (.object list))
    (hkeys : store.rest.heap.objects[list]? = some (.ofElements keys L.arrayPrototype))
    (he : (eval L.base e).outcome store = (.ok key, store)) (hkey : key.IsKey)
    (hsingle : [e].any isSpread = false) :
    (eval L.base (Rest.notExcluded e)).outcome store =
      (.ok (.boolean (key ∉ keys)), store) := by
  have howner : (eval L.base (.ofName "e")).outcome store = (.ok (.object list), store) :=
    outcome_read_of_some hlist
  have hnone : store.rest.heap.own? list "indexOf" = none := by
    rw [Heap.own?, hkeys, Option.bind_some, Obj.content?_eq_none, Obj.keys_ofElements]
    intro hmem
    rcases List.mem_append.mp hmem with hmem | hmem
    · obtain ⟨i, -, hi⟩ := List.mem_map.mp hmem
      exact repr_ne_of_head (c := 'i') rfl (by decide) hi
    · exact absurd hmem (by decide)
  have hproto : store.rest.heap.proto? list = some L.arrayPrototype := by
    rw [Heap.proto?, hkeys]
    rfl
  have hindex : (eval L.base (((Expr.ofName "e").dot "indexOf").apply [e])).outcome store =
      (.ok (.ofInt (store.rest.heap.indexOf list key)), store) :=
    (outcome_method howner (outcome_getProperty rfl (Heap.lookup_inherited hnone hproto hL.indexOf))
      hsingle (outcome_evalEach_cons he outcome_evalEach_nil)).trans (outcome_indexOf hL)
  have hzero : (eval L.base (.ofNumber "0")).outcome store = (.ok (.ofInt 0), store) := by
    rw [eval_ofNumber, Run.outcome_pure]
    show (Except.ok (Value.number (L.numberText "0")), store) = _
    rw [hL.zero]
    rfl
  rw [Rest.notExcluded, outcome_lt hindex hzero]
  simp only [Heap.indexOf_lt_zero hkeys hkey]

/-! ## The state of the function -/

/-- What the variables stand for that the function reads. -/
structure Library.Sees (L : Library) (m list copy : Nat) (vars : String → Option Value) : Prop where
  value : vars "s" = some (.object m)
  list : vars "e" = some (.object list)
  copy : vars "t" = some (.object copy)
  object : vars "Object" = some (.object L.object)

/-- The variables with a value in one of them. -/
def setVar (name : String) (v : Value) (vars : String → Option Value) : String → Option Value :=
  fun x => if x = name then some v else vars x

theorem outcome_write_vars {σ : Type} (name : String) (v : Value) (vars : String → Option Value)
    (rest : σ) : (write name v : Run σ Unit).outcome ⟨vars, rest⟩ =
      (.ok (), ⟨setVar name v vars, rest⟩) := rfl

theorem Library.Sees.setVar {L : Library} {m list copy : Nat} {vars : String → Option Value}
    (h : L.Sees m list copy vars) {name : String} (hname : name ∉ ["s", "e", "t", "Object"])
    (v : Value) : L.Sees m list copy (setVar name v vars) := by
  simp only [List.mem_cons, List.not_mem_nil, or_false, not_or] at hname
  exact ⟨(if_neg (Ne.symm hname.1)).trans h.value, (if_neg (Ne.symm hname.2.1)).trans h.list,
    (if_neg (Ne.symm hname.2.2.1)).trans h.copy, (if_neg (Ne.symm hname.2.2.2)).trans h.object⟩

/-- What the function copies from, and the list of keys that it leaves out. -/
structure Library.Copies (L : Library) (m list : Nat) (o : Obj) (keys : List Value) (h : Heap) :
    Prop where
  intact : L.Intact h
  value : h.objects[m]? = some o
  list : h.objects[list]? = some (.ofElements keys L.arrayPrototype)

namespace Library.Copies
variable {L : Library} {m list : Nat} {o : Obj} {keys : List Value} {h h' : Heap}

theorem known (hc : L.Copies m list o keys h) : m < h.objects.length :=
  (List.getElem?_eq_some_iff.mp hc.value).1

theorem mono (hc : L.Copies m list o keys h) (hext : h.Extends h') : L.Copies m list o keys h' where
  intact := hc.intact.mono hext
  value := (hext m hc.known).trans hc.value
  list := (hext list (List.getElem?_eq_some_iff.mp hc.list).1).trans hc.list

end Library.Copies

section
variable {L : Library} {m list copy : Nat} {store store' : Store Memory} {e : Expr} {k v : Value}

/-- A property is copied. -/
theorem outcome_copyProperty (hsees : L.Sees m list copy store.vars)
    (he : (eval L.base e).outcome store = (.ok k, store))
    (hget : (L.base.getProperty (.object m) k).outcome store = (.ok v, store))
    (hput : (L.base.putProperty (.object copy) k v).outcome store = (.ok (), store')) :
    (exec L.base memoryKeys (Rest.copyProperty e)).outcome store = (.ok (), store') := by
  have hvalue : (eval L.base (.ofName "s")).outcome store = (.ok (.object m), store) :=
    outcome_read_of_some hsees.value
  have hcopy : (eval L.base (.ofName "t")).outcome store = (.ok (.object copy), store) :=
    outcome_read_of_some hsees.copy
  have htarget : (refer L.base ((Expr.ofName "t").lookup e)).outcome store =
      (.ok (.property (.object copy) k), store) := by
    rw [refer_lookup, Run.outcome_bind_of_ok hcopy, Run.outcome_bind_of_ok he, Run.outcome_pure]
  have hputs : (L.base.put v (.property (.object copy) k)).outcome store = (.ok (), store') := hput
  refine outcome_exec_expr (v := v) ?_
  rw [eval_assignTo_expr, storeTo, Run.outcome_bind_of_ok htarget,
    Run.outcome_bind_of_ok ((outcome_lookup hvalue he).trans hget), Run.outcome_bind_of_ok hputs,
    Run.outcome_pure]

end

/-! ## The loop over texts -/

/-- The memory while the function collects what it copies. -/
def Memory.collecting (L : Library) (M : Memory) (entries : List (String × Value)) : Memory :=
  { M with heap := M.heap.collecting L.toRealm entries }

/-- What the loop does for one key. -/
def copyText (L : Library) (key : String) : Run Memory Unit := do
  write "p" (.string key)
  exec L.base memoryKeys (.ifThen
    (.binary .and (.prototypeCall "hasOwnProperty" (.ofName "s") (.ofName "p"))
      (Rest.notExcluded (.ofName "p")))
    (Rest.copyProperty (.ofName "p")))

theorem Memory.isSome_isEnumerable? {M : Memory} {id : Nat} {key : String} :
    (M.isEnumerable? id (.string key)).isSome = (M.heap.own? id key).isSome := by
  show (((some key).bind fun text => (M.heap.objects[id]?).bind fun o =>
    (o.slots.find? (·.key == text)).bind fun s => some s.isEnumerable)).isSome = _
  unfold Heap.own? Obj.content?
  cases M.heap.objects[id]? with
  | none => rfl
  | some o => cases h : o.slots.find? (·.key == key) <;> simp [h]

section
variable {L : Library} {m list : Nat} {o : Obj} {keys : List Value} {M : Memory} {key : String}
  {vars : String → Option Value} {entries : List (String × Value)} {v : Value}
  (hc : L.Copies m list o keys M.heap) (hsees : L.Sees m list M.heap.objects.length vars)
include hc hsees

/-- The test that the loop makes of a text. -/
theorem outcome_textGuard (key : String) (entries : List (String × Value)) :
    (eval L.base (.binary .and (.prototypeCall "hasOwnProperty" (.ofName "s") (.ofName "p"))
      (Rest.notExcluded (.ofName "p")))).outcome
        ⟨setVar "p" (.string key) vars, M.collecting L entries⟩ =
      (.ok (.boolean ((M.heap.own? m key).isSome && .string key ∉ keys)),
        ⟨setVar "p" (.string key) vars, M.collecting L entries⟩) := by
  have hc' : L.Copies m list o keys (M.collecting L entries).heap := hc.mono Heap.extends_collecting
  have hsees' : L.Sees m list M.heap.objects.length (setVar "p" (.string key) vars) :=
    hsees.setVar (by decide) _
  have hread : (eval L.base (.ofName "p")).outcome
      ⟨setVar "p" (.string key) vars, M.collecting L entries⟩ =
        (.ok (.string key), ⟨setVar "p" (.string key) vars, M.collecting L entries⟩) :=
    outcome_read_of_some rfl
  have hvalue : (eval L.base (.ofName "s")).outcome
      ⟨setVar "p" (.string key) vars, M.collecting L entries⟩ =
        (.ok (.object m), ⟨setVar "p" (.string key) vars, M.collecting L entries⟩) :=
    outcome_read_of_some hsees'.value
  have hown := (Library.outcome_prototypeCall hc'.intact hsees'.object hc'.intact.method
    hc'.intact.inherits hc'.intact.noCall hvalue hread rfl).trans Library.outcome_hasOwnProperty
  have hlisted := Library.outcome_notExcluded hc'.intact hsees'.list hc'.list hread trivial rfl
  rw [outcome_and _ hown, hlisted, Memory.isSome_isEnumerable?]
  have hsame : (M.collecting L entries).heap.own? m key = M.heap.own? m key :=
    Heap.own?_collecting hc.known key
  rw [hsame]
  cases (M.heap.own? m key).isSome <;> rfl

theorem outcome_copyText
    (hvalue : ∀ c, M.heap.own? m key = some c → key ≠ "__proto__" ∧ ∃ v, c = .value v)
    (hnodup : (entries.map Prod.fst ++
      (ownUnless M.heap m (fun key => .string key ∈ keys) [key]).map Prod.fst).Nodup) :
    (copyText L key).outcome ⟨vars, M.collecting L entries⟩ =
      (.ok (), ⟨setVar "p" (.string key) vars,
        M.collecting L (entries ++ ownUnless M.heap m (fun key => .string key ∈ keys) [key])⟩) := by
  have hguard := outcome_textGuard hc hsees key entries
  rw [copyText, Run.outcome_bind_of_ok (outcome_write_vars "p" _ vars _)]
  have hif : ∀ test yes, exec L.base memoryKeys (.ifThen test yes) = (do
      if (← eval L.base test).isTruthy then exec L.base memoryKeys yes) := fun _ _ => rfl
  rw [hif, Run.outcome_bind_of_ok hguard]
  by_cases hskip : .string key ∈ keys ∨ M.heap.own? m key = none
  · have hfalse : ((M.heap.own? m key).isSome && decide (.string key ∉ keys)) = false := by
      rcases hskip with h | h <;> simp [h]
    rw [hfalse, ownUnless_cons_of_skip [] hskip]
    simp [Value.isTruthy, ownUnless]
  · obtain ⟨hlisted, hmine⟩ := not_or.mp hskip
    obtain ⟨c, hcontent⟩ := Option.ne_none_iff_exists'.mp hmine
    obtain ⟨hne, v, rfl⟩ := hvalue c hcontent
    have htrue : ((M.heap.own? m key).isSome && decide (.string key ∉ keys)) = true := by
      simp [hcontent, hlisted]
    have hsees' : L.Sees m list M.heap.objects.length (setVar "p" (.string key) vars) :=
      hsees.setVar (by decide) _
    have hlookup : (M.collecting L entries).heap.lookup m key = some (.value v) :=
      Heap.lookup_own ((Heap.own?_collecting hc.known key).trans hcontent)
    rw [ownUnless_cons_of_not_skip [] hcontent hlisted] at hnodup ⊢
    have hnew : key ∉ entries.map Prod.fst := fun hmem =>
      (List.nodup_append.mp hnodup).2.2 key hmem key List.mem_cons_self rfl
    have hput := Realm.outcome_putProperty hc.intact.toIntact (setVar "p" (.string key) vars) hne
      hnew v
    rw [htrue]
    exact outcome_copyProperty hsees' (outcome_read_of_some rfl)
      (Library.outcome_getProperty rfl hlookup) (outcome_onHeap (M := M.collecting L entries) hput)

omit hsees in
/-- The loop collects what is to be copied. -/
theorem outcome_copyTexts (texts : List String) (vars : String → Option Value)
    (hsees : L.Sees m list M.heap.objects.length vars) (entries : List (String × Value))
    (hvalues : ∀ key ∈ texts, ∀ c, M.heap.own? m key = some c →
      key ≠ "__proto__" ∧ ∃ v, c = .value v)
    (hnodup : (entries.map Prod.fst ++
      (ownUnless M.heap m (fun key => .string key ∈ keys) texts).map Prod.fst).Nodup) :
    ∃ vars', (∀ x, x ≠ "p" → vars' x = vars x) ∧
      (texts.forM (copyText L)).outcome ⟨vars, M.collecting L entries⟩ =
        (.ok (), ⟨vars', M.collecting L
          (entries ++ ownUnless M.heap m (fun key => .string key ∈ keys) texts)⟩) := by
  induction texts generalizing vars entries with
  | nil => exact ⟨vars, fun _ _ => rfl, by rw [ownUnless, List.filterMap_nil, List.append_nil]; rfl⟩
  | cons key texts ih =>
    obtain ⟨hvalue, hvalues⟩ := List.forall_mem_cons.mp hvalues
    rw [ownUnless_cons] at hnodup ⊢
    rw [List.map_append, ← List.append_assoc] at hnodup
    have hstep := outcome_copyText hc hsees hvalue (List.nodup_append.mp hnodup).1
    rw [← List.map_append] at hnodup
    have hsees' : L.Sees m list M.heap.objects.length (setVar "p" (.string key) vars) :=
      hsees.setVar (by decide) _
    obtain ⟨vars', hvars', hloop⟩ := ih _ hsees' _ hvalues hnodup
    refine ⟨vars', fun x hx => (hvars' x hx).trans (if_neg hx), ?_⟩
    show (copyText L key >>= fun _ => texts.forM (copyText L)).outcome _ = _
    rw [Run.outcome_bind_of_ok hstep, hloop, List.append_assoc]

/-- The properties under texts are copied. -/
theorem outcome_copyStrings (hplain : o.IsPlain) :
    ∃ vars', (∀ x, x ≠ "p" → vars' x = vars x) ∧
      (exec L.base memoryKeys Rest.copyStrings).outcome ⟨vars, M.collecting L []⟩ =
        (.ok (), ⟨vars', M.collecting L
          (o.entries.filter fun entry => .string entry.1 ∉ keys)⟩) := by
  set texts := (M.collecting L []).heap.keys m with htexts
  have hknown : (M.collecting L []).heap.objects[m]? = some o :=
    (Heap.extends_collecting m hc.known).trans hc.value
  have hvalue : (eval L.base (.ofName "s")).outcome ⟨vars, M.collecting L []⟩ =
      (.ok (.object m), ⟨vars, M.collecting L []⟩) := outcome_read_of_some hsees.value
  have hseen : (memoryKeys (.object m)).outcome ⟨vars, M.collecting L []⟩ =
      (.ok texts, ⟨vars, M.collecting L []⟩) := rfl
  have hloop : exec L.base memoryKeys Rest.copyStrings = (do
      let v ← eval L.base (.ofName "s")
      (← memoryKeys v).forM (copyText L)) := rfl
  have hentries : ownUnless M.heap m (fun key => .string key ∈ keys) texts =
      o.entries.filter fun entry => .string entry.1 ∉ keys :=
    hplain.ownUnless_keys hc.value hknown _
  obtain ⟨vars', hvars', hcopied⟩ := outcome_copyTexts hc texts vars hsees []
    (hplain.value_of_mem_keys hc.value hknown) (by
    rw [hentries]
    exact hplain.nodup_entries.sublist (List.filter_sublist.map Prod.fst))
  rw [hentries, List.nil_append] at hcopied
  refine ⟨vars', hvars', ?_⟩
  rw [hloop, Run.outcome_bind_of_ok hvalue, Run.outcome_bind_of_ok hseen, hcopied]

end

/-! ## The loop over symbols -/

/-- Whether the function copies what stands under a symbol. -/
def SymbolSlot.isCopied (keys : List Value) (s : SymbolSlot) : Bool :=
  .symbol s.symbol ∉ keys && s.isEnumerable

/-- What the loop does in one round. -/
def copySymbol (L : Library) : Run Memory Unit := do
  let key := (Expr.ofName "p").lookup (.ofName "i")
  exec L.base memoryKeys (.block [.ifThen
    (.binary .and (Rest.notExcluded key)
      (.prototypeCall "propertyIsEnumerable" (.ofName "s") key))
    (Rest.copyProperty key)])
  let _ ← eval L.base (.update .increment false (.ofName "i"))

theorem outcome_increment {L : Library} {vars : String → Option Value} {N : Memory} {i : Int}
    {name : String} (hi : vars name = some (.ofInt i)) :
    (eval L.base (.update .increment false (.ofName name))).outcome ⟨vars, N⟩ =
      (.ok (.ofInt i), ⟨setVar name (.ofInt (i + 1)) vars, N⟩) := by
  rw [eval_update]
  show (L.increment (.synthetic name)).outcome _ = _
  rw [Library.increment, Run.outcome_bind_of_ok (Run.outcome_get _)]
  simp only [Ident.synthetic, hi, Option.bind_some, Value.int?_ofInt]
  rfl

/-- What the loop goes through: the properties of the object under symbols, and an array of these
symbols. -/
structure Counts (L : Library) (m list array : Nat) (o : Obj) (keys : List Value)
    (slots : List SymbolSlot) (N : Memory) : Prop extends L.Copies m list o keys N.heap where
  symbols : N.symbols m = slots
  once : (slots.map (·.symbol)).Nodup
  array : N.heap.objects[array]? =
    some (.ofElements (slots.map fun s => .symbol s.symbol) L.arrayPrototype)

section
variable {L : Library} {m list array copy : Nat} {o : Obj} {keys : List Value}
  {slots kept : List SymbolSlot} {N : Memory} {vars : String → Option Value} {s : SymbolSlot}
  {i : Nat}

theorem Memory.ownSymbol?_withSymbols_of_ne (hne : copy ≠ m) (symbol : Nat) :
    (N.withSymbols copy kept).ownSymbol? m symbol = N.ownSymbol? m symbol := by
  show List.find? _ (if m = copy then kept else N.symbols m) = _
  rw [if_neg (Ne.symm hne)]
  rfl

theorem Memory.defineSymbol_withSymbols (hnew : s.symbol ∉ kept.map (·.symbol)) (v : Value) :
    (N.withSymbols copy kept).defineSymbol copy s.symbol v =
      N.withSymbols copy (kept ++ [⟨s.symbol, v, true⟩]) := by
  have hsymbols : (N.withSymbols copy kept).symbols copy = kept := if_pos rfl
  have hnone : (N.withSymbols copy kept).ownSymbol? copy s.symbol = none := by
    rw [ownSymbol?, hsymbols, List.find?_eq_none]
    intro s' hs' heq
    exact hnew (beq_iff_eq.mp heq ▸ List.mem_map_of_mem hs')
  rw [defineSymbol, hnone, hsymbols]
  refine congrArg (Memory.mk N.heap) (funext fun id => ?_)
  by_cases hid : id = copy <;> simp [hid, withSymbols]

theorem Counts.ownSymbol? (hn : Counts L m list array o keys slots N) (hs : s ∈ slots) :
    N.ownSymbol? m s.symbol = some s := by
  rw [Memory.ownSymbol?, hn.symbols]
  cases hfind : slots.find? (·.symbol == s.symbol) with
  | none => exact absurd (beq_self_eq_true s.symbol) (List.find?_eq_none.mp hfind s hs)
  | some s' =>
    have hsymbol : s'.symbol = s.symbol := by simpa using List.find?_some hfind
    rw [List.inj_on_of_nodup_map hn.once (List.mem_of_find?_eq_some hfind) hs hsymbol]

/-- The test of the loop. -/
theorem outcome_counts (copy : Nat) (kept : List SymbolSlot)
    (hn : Counts L m list array o keys slots N) {n : Nat} (harray : vars "p" = some (.object array)) (hi : vars "i" = some (.ofInt n)) :
    (eval L.base (.binary .lt (.ofName "i") ((Expr.ofName "p").dot "length"))).outcome
      ⟨vars, N.withSymbols copy kept⟩ =
        (.ok (.boolean (n < slots.length)), ⟨vars, N.withSymbols copy kept⟩) := by
  have hindex : (eval L.base (.ofName "i")).outcome ⟨vars, N.withSymbols copy kept⟩ =
      (.ok (.ofInt n), ⟨vars, N.withSymbols copy kept⟩) := outcome_read_of_some hi
  have hsymbols : (eval L.base (.ofName "p")).outcome ⟨vars, N.withSymbols copy kept⟩ =
      (.ok (.object array), ⟨vars, N.withSymbols copy kept⟩) := outcome_read_of_some harray
  have hlength : (eval L.base ((Expr.ofName "p").dot "length")).outcome
      ⟨vars, N.withSymbols copy kept⟩ =
        (.ok (.ofInt slots.length), ⟨vars, N.withSymbols copy kept⟩) := by
    have hown := Heap.own?_length hn.array
    rw [List.length_map] at hown
    exact (outcome_dot hsymbols _).trans (Library.outcome_getProperty rfl (Heap.lookup_own hown))
  rw [Library.outcome_lt hindex hlength]
  simp only [Int.ofNat_lt]

variable (hn : Counts L m list array o keys slots N) (hsees : L.Sees m list copy vars)
  (hne : copy ≠ m) (harray : vars "p" = some (.object array)) (hi : vars "i" = some (.ofInt i))
include hn hsees hne harray hi

theorem outcome_copySymbol (hs : slots[i]? = some s) (hnew : s.symbol ∉ kept.map (·.symbol)) :
    (copySymbol L).outcome ⟨vars, N.withSymbols copy kept⟩ =
      (.ok (), ⟨setVar "i" (.ofInt (i + 1)) vars,
        N.withSymbols copy (kept ++ [s].filter (·.isCopied keys))⟩) := by
  set store : Store Memory := ⟨vars, N.withSymbols copy kept⟩ with hstore
  have hmem : s ∈ slots := List.mem_of_getElem? hs
  have hown : store.rest.ownSymbol? m s.symbol = some s :=
    (Memory.ownSymbol?_withSymbols_of_ne hne _).trans (hn.ownSymbol? hmem)
  have helement : N.heap.own? array i.repr = some (.value (.symbol s.symbol)) :=
    Heap.own?_element hn.array (by rw [List.getElem?_map, hs]; rfl)
  have hvalue : (eval L.base (.ofName "s")).outcome store = (.ok (.object m), store) :=
    outcome_read_of_some hsees.value
  have hsymbols : (eval L.base (.ofName "p")).outcome store = (.ok (.object array), store) :=
    outcome_read_of_some harray
  have hindex : (eval L.base (.ofName "i")).outcome store = (.ok (.ofInt i), store) :=
    outcome_read_of_some hi
  have hkey : (eval L.base ((Expr.ofName "p").lookup (.ofName "i"))).outcome store =
      (.ok (.symbol s.symbol), store) :=
    (outcome_lookup hsymbols hindex).trans
      (Library.outcome_getProperty (Value.text?_ofInt i) (Heap.lookup_own helement))
  have hlisted := Library.outcome_notExcluded hn.intact hsees.list hn.list hkey trivial rfl
  have henumerable := (Library.outcome_prototypeCall hn.intact hsees.object hn.intact.enumerable
    hn.intact.enumerableInherits hn.intact.enumerableNoCall hvalue hkey rfl).trans
      (Library.outcome_propertyIsEnumerable hn.intact)
  have hguard : (eval L.base (.binary .and
      (Rest.notExcluded ((Expr.ofName "p").lookup (.ofName "i")))
      (.prototypeCall "propertyIsEnumerable" (.ofName "s")
        ((Expr.ofName "p").lookup (.ofName "i"))))).outcome store =
        (.ok (.boolean (s.isCopied keys)), store) := by
    have hseen : store.rest.isEnumerable? m (.symbol s.symbol) = some s.isEnumerable := by
      show (store.rest.ownSymbol? m s.symbol).map (·.isEnumerable) = _
      rw [hown]
      rfl
    rw [outcome_and _ hlisted, henumerable, hseen, SymbolSlot.isCopied]
    by_cases hin : .symbol s.symbol ∈ keys <;> simp [hin]
  have hblock : ∀ test yes, exec L.base memoryKeys (.block [.ifThen test yes]) = (do
      if (← eval L.base test).isTruthy then exec L.base memoryKeys yes) := fun _ _ => bind_pure _
  have hround : (exec L.base memoryKeys (.block [.ifThen
      (.binary .and (Rest.notExcluded ((Expr.ofName "p").lookup (.ofName "i")))
        (.prototypeCall "propertyIsEnumerable" (.ofName "s")
          ((Expr.ofName "p").lookup (.ofName "i"))))
      (Rest.copyProperty ((Expr.ofName "p").lookup (.ofName "i")))])).outcome store =
        (.ok (), ⟨vars, N.withSymbols copy (kept ++ [s].filter (·.isCopied keys))⟩) := by
    rw [hblock, Run.outcome_bind_of_ok hguard]
    cases hcopied : s.isCopied keys with
    | false => simp [Value.isTruthy, hcopied, hstore]
    | true =>
      have hput : (L.base.putProperty (.object copy) (.symbol s.symbol) s.value).outcome store =
          (.ok (), ⟨vars, N.withSymbols copy (kept ++ [s])⟩) := by
        show (Except.ok (), Store.mk vars
          ((N.withSymbols copy kept).defineSymbol copy s.symbol s.value)) = _
        rw [Memory.defineSymbol_withSymbols hnew]
        have hs' : (⟨s.symbol, s.value, true⟩ : SymbolSlot) = s := by
          have := (Bool.and_eq_true_iff.mp hcopied).2
          cases s
          simp_all
        rw [hs']
      simpa [Value.isTruthy, hcopied] using
        outcome_copyProperty hsees hkey (Library.outcome_getSymbol hn.known hown) hput
  rw [copySymbol, Run.outcome_bind_of_ok hround, Run.outcome_bind_of_ok (outcome_increment hi)]
  rfl

omit hsees hi harray in
/-- The loop copies what it comes to. -/
theorem outcome_copySymbols_loop (rest done : List SymbolSlot) (hslots : slots = done ++ rest)
    (vars : String → Option Value) (hsees : L.Sees m list copy vars)
    (harray : vars "p" = some (.object array)) (hi : vars "i" = some (.ofInt done.length))
    {rounds : Nat} (hrounds : rest.length < rounds) :
    ∃ vars', (∀ x, x ≠ "i" → vars' x = vars x) ∧
      (repeatWhile L.base (eval L.base (.binary .lt (.ofName "i") ((Expr.ofName "p").dot "length")))
        (copySymbol L) rounds).outcome
          ⟨vars, N.withSymbols copy (done.filter (·.isCopied keys))⟩ =
        (.ok (), ⟨vars', N.withSymbols copy (slots.filter (·.isCopied keys))⟩) := by
  induction rest generalizing vars done rounds with
  | nil =>
    obtain ⟨rounds, rfl⟩ := Nat.exists_eq_succ_of_ne_zero (Nat.ne_zero_of_lt hrounds)
    have htest := outcome_counts copy (done.filter (·.isCopied keys)) hn harray hi
    rw [List.append_nil] at hslots
    refine ⟨vars, fun _ _ => rfl, ?_⟩
    rw [repeatWhile, Run.outcome_bind_of_ok htest, hslots]
    simp [Value.isTruthy]
  | cons s rest ih =>
    obtain ⟨rounds, rfl⟩ := Nat.exists_eq_succ_of_ne_zero (Nat.ne_zero_of_lt hrounds)
    have htest := outcome_counts copy (done.filter (·.isCopied keys)) hn harray hi
    have hmore : done.length < slots.length := by simp [hslots]
    have hs : slots[done.length]? = some s := by simp [hslots]
    have hnew : s.symbol ∉ (done.filter (·.isCopied keys)).map (·.symbol) := by
      have honce := hn.once
      rw [hslots, List.map_append, List.nodup_append] at honce
      intro hmem
      exact honce.2.2 _ ((List.filter_sublist.map _).subset hmem) s.symbol List.mem_cons_self rfl
    have hround := outcome_copySymbol hn hsees hne harray hi hs hnew
    rw [← List.filter_append] at hround
    have hlength : ((done ++ [s]).length : Int) = done.length + 1 := by simp
    obtain ⟨vars', hvars', hloop⟩ := ih (done ++ [s]) (by simp [hslots])
      (setVar "i" (.ofInt (done.length + 1)) vars) (hsees.setVar (by decide) _) harray
      (by rw [hlength]; rfl) (Nat.lt_of_succ_lt_succ hrounds)
    refine ⟨vars', fun x hx => (hvars' x hx).trans (if_neg hx), ?_⟩
    rw [repeatWhile, Run.outcome_bind_of_ok htest, decide_eq_true hmore]
    show (copySymbol L >>= fun _ => repeatWhile L.base _ _ rounds).outcome _ = _
    rw [Run.outcome_bind_of_ok hround, hloop]

end

/-! ## The function -/

/-- A heap with one more object. -/
def Heap.push (h : Heap) (o : Obj) : Heap := { h with objects := h.objects ++ [o] }

theorem Heap.extends_push (h : Heap) (o : Obj) : h.Extends (h.push o) := fun _ hid =>
  List.getElem?_append_left hid

theorem Heap.push_last (h : Heap) (o : Obj) : (h.push o).objects[h.objects.length]? = some o := by
  simp [Heap.push]

theorem Library.outcome_array {L : Library} {vars : String → Option Value} {M : Memory}
    (elements : List Value) : (L.base.array elements).outcome ⟨vars, M⟩ =
      (.ok (.object M.heap.objects.length),
        ⟨vars, { M with heap := M.heap.push (.ofElements elements L.arrayPrototype) }⟩) := rfl

theorem outcome_typeOf {σ : Type} {w : World σ} {store : Store σ} {e : Expr} {owner key v : Value}
    (he : (refer w e).outcome store = (.ok (.property owner key), store))
    (hget : (w.getProperty owner key).outcome store = (.ok v, store)) :
    (eval w (.unary .typeOf e)).outcome store = (.ok (.string (w.typeText v)), store) := by
  have htype : (w.typeOf (.property owner key)).outcome store =
      (.ok (.string (w.typeText v)), store) := Run.outcome_bind_of_ok hget _
  rw [eval, refer_typeOf, bind_assoc, Run.outcome_bind_of_ok he, bind_assoc,
    Run.outcome_bind_of_ok htype]
  rfl

section
variable {L : Library} {m list copy : Nat} {o : Obj} {keys : List Value} {M : Memory}
  {vars : String → Option Value} (hc : L.Copies m list o keys M.heap)
  (hsees : L.Sees m list copy vars)
include hc hsees

/-- The function finds that there are symbols. -/
theorem outcome_hasSymbols :
    (eval L.base (.binary .and (.binary .ne (.ofName "s") (.literal .null))
      (.binary .strictEq (.unary .typeOf (.ofPath "Object.getOwnPropertySymbols"))
        (.ofString "function")))).outcome ⟨vars, M⟩ = (.ok (.boolean true), ⟨vars, M⟩) := by
  have hvalue : (eval L.base (.ofName "s")).outcome ⟨vars, M⟩ = (.ok (.object m), ⟨vars, M⟩) :=
    outcome_read_of_some hsees.value
  have hctor : (eval L.base (.ofName "Object")).outcome ⟨vars, M⟩ =
      (.ok (.object L.object), ⟨vars, M⟩) := outcome_read_of_some hsees.object
  have hne : (eval L.base (.binary .ne (.ofName "s") (.literal .null))).outcome ⟨vars, M⟩ =
      (.ok (.boolean true), ⟨vars, M⟩) := by
    rw [eval_binary _ (by decide), Run.outcome_bind_of_ok hvalue]
    rfl
  have href : (refer L.base ((Expr.ofName "Object").dot "getOwnPropertySymbols")).outcome
      ⟨vars, M⟩ = (.ok (.property (.object L.object) (.string "getOwnPropertySymbols")),
        ⟨vars, M⟩) := by
    rw [refer_dot, Run.outcome_bind_of_ok hctor, Run.outcome_pure]
  have htype : (eval L.base (.unary .typeOf (.ofPath "Object.getOwnPropertySymbols"))).outcome
      ⟨vars, M⟩ = (.ok (.string "function"), ⟨vars, M⟩) := by
    have hfunction : (L.base.getProperty (.object L.object) (.string "getOwnPropertySymbols")).outcome
        ⟨vars, M⟩ = (.ok (.object L.getOwnPropertySymbols), ⟨vars, M⟩) :=
      Library.outcome_getProperty rfl (Heap.lookup_own hc.intact.symbols)
    refine (outcome_typeOf href hfunction).trans ?_
    have hcallable : L.base.isCallable L.getOwnPropertySymbols = true := by
      simp [Library.base, Library.functions]
    rw [World.typeText, hcallable]
    rfl
  rw [outcome_and _ hne, if_pos rfl, eval_strictEq, Run.outcome_bind_of_ok htype, eval_ofString]
  rfl

theorem outcome_copySymbols (hne : copy ≠ m) (hempty : M.symbols copy = [])
    (honce : ((M.symbols m).map (·.symbol)).Nodup) {rounds : Nat}
    (hrounds : (M.symbols m).length < rounds) :
    ∃ vars' array, (∀ x, x ∉ ["i", "p"] → vars' x = vars x) ∧
      (perform L.base memoryKeys rounds Rest.copySymbols).outcome ⟨vars, M⟩ =
        (.ok (), ⟨vars', { M with heap := M.heap.push array }.withSymbols copy
          ((M.symbols m).filter (·.isCopied keys))⟩) := by
  set slots := M.symbols m with hslots
  set array : Obj := .ofElements (slots.map fun s => .symbol s.symbol) L.arrayPrototype with harray
  set N : Memory := { M with heap := M.heap.push array } with hN
  set vars₁ := setVar "i" (.ofInt 0) vars with hvars₁
  set vars₂ := setVar "p" (.object M.heap.objects.length) vars₁ with hvars₂
  have hsees₁ : L.Sees m list copy vars₁ := hsees.setVar (by decide) _
  have hsees₂ : L.Sees m list copy vars₂ := hsees₁.setVar (by decide) _
  have hn : Counts L m list M.heap.objects.length o keys slots N := {
    toCopies := hc.mono (M.heap.extends_push array)
    symbols := rfl
    once := honce
    array := M.heap.push_last array }
  have hstart : N.withSymbols copy [] = N := by
    refine congrArg (Memory.mk N.heap) (funext fun id => ?_)
    by_cases hid : id = copy
    · rw [if_pos hid, hid]
      exact hempty.symm
    · exact if_neg hid
  have hindex : (declare L.base (.ofName "i" (some (.ofNumber "0")))).outcome ⟨vars, M⟩ =
      (.ok (), ⟨vars₁, M⟩) := by
    show (do write "i" (← eval L.base (.ofNumber "0"))).outcome _ = _
    rw [eval_ofNumber, pure_bind, outcome_write_vars]
    show (Except.ok (), Store.mk (setVar "i" (.number (L.numberText "0")) vars) M) = _
    rw [hc.intact.zero]
    rfl
  have hsymbols : (eval L.base (((Expr.ofName "Object").dot "getOwnPropertySymbols").apply
      [.ofName "s"])).outcome ⟨vars₁, M⟩ = (.ok (.object M.heap.objects.length), ⟨vars₁, N⟩) := by
    have hctor : (eval L.base (.ofName "Object")).outcome ⟨vars₁, M⟩ =
        (.ok (.object L.object), ⟨vars₁, M⟩) := outcome_read_of_some hsees₁.object
    have hvalue : (eval L.base (.ofName "s")).outcome ⟨vars₁, M⟩ = (.ok (.object m), ⟨vars₁, M⟩) :=
      outcome_read_of_some hsees₁.value
    exact ((outcome_method hctor (Library.outcome_getProperty rfl
      (Heap.lookup_own hc.intact.symbols)) rfl (outcome_evalEach_cons hvalue
        outcome_evalEach_nil)).trans (Library.outcome_getOwnPropertySymbols hc.intact)).trans
          (Library.outcome_array _)
  have hlist : (declare L.base (.ofName "p" (some (((Expr.ofName "Object").dot
      "getOwnPropertySymbols").apply [.ofName "s"])))).outcome ⟨vars₁, M⟩ =
        (.ok (), ⟨vars₂, N⟩) := by
    show (eval L.base _ >>= fun v => write "p" v).outcome _ = _
    rw [Run.outcome_bind_of_ok hsymbols, outcome_write_vars]
  obtain ⟨vars', hvars', hloop⟩ := outcome_copySymbols_loop hn hne slots [] rfl vars₂ hsees₂ rfl rfl
    hrounds
  rw [List.filter_nil, hstart] at hloop
  refine ⟨vars', array, fun x hx => ?_, ?_⟩
  · obtain ⟨hi, hp⟩ : x ≠ "i" ∧ x ≠ "p" := by simpa using hx
    rw [hvars' x hi, hvars₂, setVar, if_neg hp, hvars₁, setVar, if_neg hi]
  · show (do
      if (← eval L.base _).isTruthy then
        (do
          (do declare L.base _; declare L.base _; pure ())
          repeatWhile L.base _ (copySymbol L) rounds)).outcome _ = _
    have htrue : (Value.boolean true).isTruthy = true := rfl
    rw [Run.outcome_bind_of_ok (outcome_hasSymbols hc hsees), if_pos htrue, bind_assoc,
      Run.outcome_bind_of_ok hindex, bind_assoc, Run.outcome_bind_of_ok hlist, pure_bind, hloop]

end

theorem outcome_answer {σ : Type} {w : World σ} {seen : Value → Run σ (List String)} {rounds : Nat}
    {f : Func} {args : List Value} {v : Value} {vars vars' : String → Option Value} {rest rest' : σ}
    (hbody : (result w seen rounds f.body).outcome ⟨given f args vars, rest⟩ =
      (.ok v, ⟨vars', rest'⟩)) (hvars : ∀ x, x ∉ locals f → vars' x = vars x) :
    (answer w seen rounds f args).outcome ⟨vars, rest⟩ = (.ok v, ⟨vars, rest'⟩) := by
  have hrestored : (fun x => if x ∈ locals f then vars x else vars' x) = vars := by
    funext x
    split
    · rfl
    · next hx => exact hvars x hx
  show (do
    let v ← result w seen rounds f.body
    modify fun store : Store σ => store.holding (locals f) vars
    return v).outcome ⟨given f args vars, rest⟩ = _
  rw [Run.outcome_bind_of_ok hbody, Run.outcome_bind_of_ok (Run.outcome_modify _ _)]
  show (Except.ok v, Store.mk (fun x => if x ∈ locals f then vars x else vars' x) rest') = _
  rw [hrestored]

/-- An object that another one has been copied to, but for the properties under some keys. -/
structure Library.IsRest (L : Library) (M : Memory) (m : Nat) (keys : List Value) (M' : Memory)
    (copy : Nat) : Prop where
  entries : M'.entries copy = (M.entries m).filter fun entry => entry.1 ∉ keys
  inherits : M'.heap.proto? copy = some L.objectPrototype
  isNew : M.heap.objects.length ≤ copy
  /-- The objects that were there are as they were. -/
  unchanged : M.heap.Extends M'.heap
  symbolsUnchanged : ∀ id < M.heap.objects.length, M'.symbols id = M.symbols id

section
variable {L : Library} {m list : Nat} {o : Obj} {keys : List Value} {M : Memory}
  {vars : String → Option Value}

theorem entries_copied (hm : M.heap.objects[m]? = some o) {M' : Memory} {copy : Nat}
    {proto : Option Nat}
    (hcopy : M'.heap.objects[copy]? =
      some (.ofEntries (o.entries.filter fun entry => .string entry.1 ∉ keys) proto))
    (hsymbols : M'.symbols copy = (M.symbols m).filter (·.isCopied keys)) :
    M'.entries copy = (M.entries m).filter fun entry => entry.1 ∉ keys := by
  rw [Memory.entries, Memory.entries, hm, hcopy, hsymbols]
  simp only [Option.elim_some, Obj.entries_ofEntries, List.filter_append, List.filter_map,
    List.filter_filter]
  congr 2
  refine List.filter_congr fun s _ => ?_
  cases hs : s.isEnumerable <;> simp [SymbolSlot.isCopied, hs]

/-- The memory with an object at its end that the function has copied to, and an array of symbols
that it went through. -/
def Memory.copied (L : Library) (M : Memory) (m : Nat) (o : Obj) (keys : List Value) (array : Obj) :
    Memory :=
  let M₁ := M.collecting L (o.entries.filter fun entry => .string entry.1 ∉ keys)
  { M₁ with heap := M₁.heap.push array }.withSymbols M.heap.objects.length
    ((M.symbols m).filter (·.isCopied keys))

theorem Library.isRest_copied (hm : M.heap.objects[m]? = some o) (array : Obj) :
    L.IsRest M m keys (M.copied L m o keys array) M.heap.objects.length := by
  set M₁ := M.collecting L (o.entries.filter fun entry => .string entry.1 ∉ keys) with hM₁
  have hlonger : M.heap.objects.length < M₁.heap.objects.length := by
    simp [hM₁, Memory.collecting, Heap.collecting]
  have hlast : (M.copied L m o keys array).heap.objects[M.heap.objects.length]? = some (.ofEntries
      (o.entries.filter fun entry => .string entry.1 ∉ keys) (some L.objectPrototype)) :=
    (M₁.heap.extends_push array _ hlonger).trans Heap.collecting_last
  exact {
    entries := entries_copied hm hlast (if_pos rfl)
    inherits := by
      rw [Heap.proto?, hlast]
      rfl
    isNew := Nat.le_refl _
    unchanged := fun id hid => (M₁.heap.extends_push array id (Nat.lt_trans hid hlonger)).trans
      (Heap.extends_collecting id hid)
    symbolsUnchanged := fun id hid => if_neg (Nat.ne_of_lt hid) }

/-- The body of the function runs. -/
theorem outcome_copier_body (hc : L.Copies m list o keys M.heap) (hplain : o.IsPlain)
    (hvalue : vars "s" = some (.object m)) (hlist : vars "e" = some (.object list))
    (hobject : vars "Object" = some (.object L.object))
    (honce : ((M.symbols m).map (·.symbol)).Nodup)
    (hfresh : ∀ id, M.heap.objects.length ≤ id → M.symbols id = []) {rounds : Nat}
    (hrounds : (M.symbols m).length < rounds) :
    ∃ vars' array, (∀ x, x ∉ locals Rest.copier → vars' x = vars x) ∧
      (result L.base memoryKeys rounds Rest.copier.body).outcome ⟨vars, M⟩ =
        (.ok (.object M.heap.objects.length), ⟨vars', M.copied L m o keys array⟩) := by
  set copy := M.heap.objects.length with hcopy
  set vars₁ := setVar "t" (.object copy) vars with hvars₁
  have hfirst : (perform L.base memoryKeys rounds (.varInit "t" (some (.object [])))).outcome
      ⟨vars, M⟩ = (.ok (), ⟨vars₁, M.collecting L []⟩) := rfl
  have hsees : L.Sees m list copy vars₁ := ⟨hvalue, hlist, rfl, hobject⟩
  obtain ⟨vars₂, hvars₂, hstrings⟩ := outcome_copyStrings hc hsees hplain
  set M₁ := M.collecting L (o.entries.filter fun entry => .string entry.1 ∉ keys) with hM₁
  have hsees₂ : L.Sees m list copy vars₂ :=
    ⟨(hvars₂ _ (by decide)).trans hsees.value, (hvars₂ _ (by decide)).trans hsees.list,
      (hvars₂ _ (by decide)).trans hsees.copy, (hvars₂ _ (by decide)).trans hsees.object⟩
  have hc₁ : L.Copies m list o keys M₁.heap := hc.mono Heap.extends_collecting
  obtain ⟨vars₃, array, hvars₃, hsymbols⟩ := outcome_copySymbols hc₁ hsees₂
    (Nat.ne_of_gt hc.known) (hfresh copy (Nat.le_refl _)) honce hrounds
  refine ⟨vars₃, array, fun x hx => ?_, ?_⟩
  · simp only [Rest.locals_copier, List.mem_cons, List.not_mem_nil, or_false, not_or] at hx
    rw [hvars₃ x (by simp [hx]), hvars₂ x hx.2.2.2.1, hvars₁, setVar, if_neg hx.2.2.1]
  · show (do
      perform L.base memoryKeys rounds (.varInit "t" (some (.object [])))
      exec L.base memoryKeys Rest.copyStrings
      perform L.base memoryKeys rounds Rest.copySymbols
      eval L.base (.ofName "t")).outcome _ = _
    rw [Run.outcome_bind_of_ok hfirst, Run.outcome_bind_of_ok hstrings,
      Run.outcome_bind_of_ok hsymbols]
    exact outcome_read_of_some ((hvars₃ "t" (by decide)).trans hsees₂.copy)

/-- The function is called. -/
theorem outcome_copier (hc : L.Copies m list o keys M.heap) (hplain : o.IsPlain)
    (hobject : vars "Object" = some (.object L.object))
    (honce : ((M.symbols m).map (·.symbol)).Nodup)
    (hfresh : ∀ id, M.heap.objects.length ≤ id → M.symbols id = []) {rounds : Nat}
    (hrounds : (M.symbols m).length < rounds) :
    ∃ M' copy, (answer L.base memoryKeys rounds Rest.copier [.object m, .object list]).outcome
      ⟨vars, M⟩ = (.ok (.object copy), ⟨vars, M'⟩) ∧ L.IsRest M m keys M' copy := by
  have hvalue : given Rest.copier [.object m, .object list] vars "s" = some (.object m) := rfl
  have hlist : given Rest.copier [.object m, .object list] vars "e" = some (.object list) := rfl
  obtain ⟨vars', array, hvars', hbody⟩ :=
    outcome_copier_body hc hplain hvalue hlist hobject honce hfresh hrounds
  exact ⟨_, _, outcome_answer hbody fun x hx => (hvars' x hx).trans (if_neg hx),
    Library.isRest_copied hc.value array⟩

/-- Another array is of no account. -/
theorem Library.IsRest.of_push {M' : Memory} {copy : Nat} {array : Obj}
    (hm : m < M.heap.objects.length)
    (h : L.IsRest { M with heap := M.heap.push array } m keys M' copy) :
    L.IsRest M m keys M' copy := by
  have hlength : M.heap.objects.length ≤ (M.heap.push array).objects.length := by simp [Heap.push]
  have hsame : ({ M with heap := M.heap.push array } : Memory).entries m = M.entries m := by
    rw [Memory.entries, M.heap.extends_push array m hm]
    rfl
  exact {
    entries := hsame ▸ h.entries
    inherits := h.inherits
    isNew := Nat.le_trans hlength h.isNew
    unchanged := fun id hid => (h.unchanged id (Nat.lt_of_lt_of_le hid hlength)).trans
      (M.heap.extends_push array id hid)
    symbolsUnchanged := fun id hid => h.symbolsUnchanged id (Nat.lt_of_lt_of_le hid hlength) }

end

/-- An object can be copied from: it has no key twice, no `__proto__` that is enumerable, and no
accessors, and there is nothing yet of the objects that are to come. -/
structure Library.CanCopy (L : Library) (m : Nat) (store : Store Memory) : Prop where
  intact : L.Intact store.rest.heap
  object : store.vars "Object" = some (.object L.object)
  plain : ∃ o, store.rest.heap.objects[m]? = some o ∧ o.IsPlain
  symbolsOnce : ((store.rest.symbols m).map (·.symbol)).Nodup
  fresh : ∀ id, store.rest.heap.objects.length ≤ id → store.rest.symbols id = []

/-- What is left of an object, the keys of its pattern aside, is its other properties. -/
theorem outcome_remaining {L : Library} {m : Nat} {keys : List Value} {x : Run Memory Value}
    {ks : List (Run Memory Value)} {store store₁ store₂ : Store Memory} {rounds : Nat}
    (hrest : store.vars restName = some (.object L.copier))
    (hx : x.outcome store = (.ok (.object m), store₁))
    (hks : (ks.mapM id).outcome store₁ = (.ok keys, store₂)) (h : L.CanCopy m store₂)
    (hrounds : (store₂.rest.symbols m).length < rounds) :
    ∃ M' copy, (remaining (L.world rounds) x ks).outcome store =
        (.ok (.object copy), { store₂ with rest := M' }) ∧
      L.IsRest store₂.rest m keys M' copy := by
  obtain ⟨o, hm, hplain⟩ := h.plain
  have hknown := (List.getElem?_eq_some_iff.mp hm).1
  set M := store₂.rest with hM
  set array : Obj := .ofElements keys L.arrayPrototype with harray
  have hext := M.heap.extends_push array
  have hc : L.Copies m M.heap.objects.length o keys (M.heap.push array) := {
    intact := h.intact.mono hext
    value := (hext m hknown).trans hm
    list := M.heap.push_last array }
  have hfresh : ∀ id, (M.heap.push array).objects.length ≤ id → M.symbols id = [] := fun id hid =>
    h.fresh id (Nat.le_trans (by simp [Heap.push, hM]) hid)
  obtain ⟨M', copy, hcopied, hisRest⟩ := outcome_copier (M := { M with heap := M.heap.push array }) hc
    hplain h.object h.symbolsOnce hfresh hrounds
  refine ⟨M', copy, ?_, hisRest.of_push hknown⟩
  have hcall : ∀ args, (L.world rounds).call (.object L.copier) .undefined args =
      answer L.base memoryKeys rounds Rest.copier args := fun args => if_pos rfl
  have harrayed : ((L.world rounds).array keys).outcome store₂ = (.ok (.object M.heap.objects.length),
      ⟨store₂.vars, { M with heap := M.heap.push array }⟩) := L.outcome_array keys
  rw [remaining, Run.outcome_bind_of_ok (outcome_read_of_some hrest), Run.outcome_bind_of_ok hx,
    Run.outcome_bind_of_ok hks, Run.outcome_bind_of_ok harrayed, hcall, hcopied]

end RegisterForm.Dynamic
