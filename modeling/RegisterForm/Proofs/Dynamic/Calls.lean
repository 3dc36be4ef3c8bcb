import RegisterForm.Proofs.Dynamic.Objects
import Mathlib.Data.List.Nodup
/-!
# Calls of built-in functions

What reading a property finds, which keys a loop sees, and what the methods do that all objects
share, as long as the built-in objects are as they are made.
-/
namespace RegisterForm.Dynamic

/-! ## Lookups -/

namespace Heap
variable {h h' : Heap} {id p : Nat} {key : String} {c : Content}

theorem lt_of_own? (hown : h.own? id key = some c) : id < h.objects.length := by
  unfold own? at hown
  cases hget : h.objects[id]? with
  | none =>
    rw [hget] at hown
    cases hown
  | some o => exact (List.getElem?_eq_some_iff.mp hget).1

theorem lt_of_proto? (hproto : h.proto? id = some p) : id < h.objects.length := by
  unfold proto? at hproto
  cases hget : h.objects[id]? with
  | none =>
    rw [hget] at hproto
    cases hproto
  | some o => exact (List.getElem?_eq_some_iff.mp hget).1

theorem lookup_own (hown : h.own? id key = some c) : h.lookup id key = some c := by
  obtain ⟨depth, hdepth⟩ := Nat.exists_eq_succ_of_ne_zero (Nat.ne_zero_of_lt (lt_of_own? hown))
  rw [lookup, hdepth, find?, hown]

theorem lookup_inherited (hnone : h.own? id key = none) (hproto : h.proto? id = some p)
    (hown : h.own? p key = some c) : h.lookup id key = some c := by
  have hid := lt_of_proto? hproto
  have hp := lt_of_own? hown
  have hne : id ≠ p := by
    rintro rfl
    rw [hnone] at hown
    cases hown
  obtain ⟨depth, hdepth⟩ : ∃ depth, h.objects.length = depth + 2 :=
    ⟨h.objects.length - 2, by omega⟩
  rw [lookup, hdepth, find?, hnone, hproto]
  simp only [Option.bind_some, find?, hown]

/-- A key that neither the object has nor the one it inherits from, which inherits from none. -/
theorem lookup_absent (hnone : h.own? id key = none) (hproto : h.proto? id = some p)
    (hnone' : h.own? p key = none) (hroot : h.proto? p = none) : h.lookup id key = none := by
  have hfind : ∀ depth, h.find? key depth p = none := by
    intro depth
    cases depth with
    | zero => rfl
    | succ depth => rw [find?, hnone', hroot, Option.bind_none]
  unfold lookup
  cases h.objects.length with
  | zero => rfl
  | succ depth => rw [find?, hnone, hproto, Option.bind_some, hfind]

/-- The objects of the first heap are as they were. -/
def Extends (h h' : Heap) : Prop := ∀ id < h.objects.length, h'.objects[id]? = h.objects[id]?

theorem Extends.own? (hext : h.Extends h') (hid : id < h.objects.length) (key : String) :
    h'.own? id key = h.own? id key := by rw [Heap.own?, hext id hid, Heap.own?]

theorem Extends.proto? (hext : h.Extends h') (hid : id < h.objects.length) :
    h'.proto? id = h.proto? id := by rw [Heap.proto?, hext id hid, Heap.proto?]

end Heap

/-! ## Keys of loops -/

namespace Obj
variable {o : Obj} {key : String}

theorem content?_of_mem (hnodup : (o.slots.map (·.key)).Nodup) {s : Slot} (hs : s ∈ o.slots) :
    o.content? s.key = some s.content := by
  unfold content?
  cases hfind : o.slots.find? (·.key == s.key) with
  | none => exact absurd (beq_self_eq_true s.key) (List.find?_eq_none.mp hfind s hs)
  | some s' =>
    have hkey : s'.key = s.key := by simpa using List.find?_some hfind
    rw [List.inj_on_of_nodup_map hnodup (List.mem_of_find?_eq_some hfind) hs hkey]
    rfl

theorem content?_eq_none : o.content? key = none ↔ key ∉ o.slots.map (·.key) := by
  unfold content?
  rw [Option.map_eq_none_iff, List.find?_eq_none]
  simp

end Obj

namespace Heap
variable {h : Heap} {id : Nat}

theorem keysFrom_not_met (depth : Nat) (met : List String) (id : Nat) :
    ∀ key ∈ h.keysFrom depth met id, key ∉ met := by
  induction depth generalizing met id with
  | zero => exact fun key hkey => nomatch hkey
  | succ depth ih =>
    intro key hkey
    rcases List.mem_append.mp hkey with hkey | hkey
    · obtain ⟨s, hs, rfl⟩ := List.mem_map.mp hkey
      have hnew := (Bool.and_eq_true_iff.mp (List.mem_filter.mp hs).2).2
      simpa using hnew
    · cases hproto : h.proto? id with
      | none =>
        rw [hproto] at hkey
        cases hkey
      | some p =>
        rw [hproto] at hkey
        exact fun hmet => ih _ p key hkey (List.mem_append_left _ hmet)

/-- A loop sees the keys of the object that can be seen, and then keys that the object does not have
itself. -/
theorem keys_eq {o : Obj} (ho : h.objects[id]? = some o) :
    ∃ inherited, h.keys id = (o.slots.filter (·.isEnumerable)).map (·.key) ++ inherited ∧
      ∀ key ∈ inherited, h.own? id key = none := by
  obtain ⟨depth, hdepth⟩ := Nat.exists_eq_succ_of_ne_zero
    (Nat.ne_zero_of_lt (List.getElem?_eq_some_iff.mp ho).1)
  refine ⟨(h.proto? id).elim [] (h.keysFrom depth (o.slots.map (·.key))), ?_, fun key hkey => ?_⟩
  · rw [keys, hdepth, keysFrom, ho]
    simp
  · rw [own?, ho, Option.bind_some, Obj.content?_eq_none]
    cases hproto : h.proto? id with
    | none =>
      rw [hproto] at hkey
      cases hkey
    | some p =>
      rw [hproto] at hkey
      exact keysFrom_not_met depth _ p key hkey

end Heap

/-! ## The built-in objects -/

/-- The built-in objects are as they are made. -/
structure Realm.Intact (R : Realm) (h : Heap) : Prop where
  prototype : h.own? R.object "prototype" = some (.value (.object R.objectPrototype))
  method : h.own? R.objectPrototype "hasOwnProperty" = some (.value (.object R.hasOwnProperty))
  root : h.proto? R.objectPrototype = none
  /-- Only `__proto__` is no common property. -/
  access : ∀ key, h.own? R.objectPrototype key = some .prototypeAccess → key = "__proto__"
  inherits : h.proto? R.hasOwnProperty = some R.functionPrototype
  noCall : h.own? R.hasOwnProperty "call" = none
  call : h.own? R.functionPrototype "call" = some (.value (.object R.functionCall))
  isNoCall : R.hasOwnProperty ≠ R.functionCall
  exporter : R.exporter ≠ R.functionCall ∧ R.exporter ≠ R.hasOwnProperty

namespace Realm
variable {R : Realm} {h h' : Heap} {store store' : Store Heap} {id : Nat} {text : String} {v : Value}

theorem Intact.mono (hR : R.Intact h) (hext : h.Extends h') : R.Intact h' := by
  have hproto := Heap.lt_of_own? hR.method
  have hfunction := Heap.lt_of_proto? hR.inherits
  exact {
    prototype := (hext.own? (Heap.lt_of_own? hR.prototype) _).trans hR.prototype
    method := (hext.own? hproto _).trans hR.method
    root := (hext.proto? hproto).trans hR.root
    access := fun key hkey => hR.access key ((hext.own? hproto key).symm.trans hkey)
    inherits := (hext.proto? hfunction).trans hR.inherits
    noCall := (hext.own? hfunction _).trans hR.noCall
    call := (hext.own? (Heap.lt_of_own? hR.call) _).trans hR.call
    isNoCall := hR.isNoCall
    exporter := hR.exporter }

theorem outcome_getProperty (hlookup : store.rest.lookup id text = some (.value v)) :
    (R.getProperty (.object id) (.string text)).outcome store = (.ok v, store) := by
  rw [getProperty, Run.outcome_bind_of_ok (Run.outcome_get store)]
  simp only [holder?, Value.text?, hlookup, Run.outcome_pure]

theorem outcome_property {m : Run Heap Value} (hm : m.outcome store = (.ok (.object id), store'))
    (hlookup : store'.rest.lookup id text = some (.value v)) :
    (property R.world m (.string text)).outcome store = (.ok v, store') := by
  rw [property, Run.outcome_bind_of_ok hm]
  exact outcome_getProperty (R := R) hlookup

theorem outcome_hasOwn :
    (R.native (.object R.hasOwnProperty) (.object id) [.string text]).outcome store =
      (.ok (.boolean (store.rest.own? id text).isSome), store) := by
  rw [native, Run.outcome_bind_of_ok (Run.outcome_get store), if_pos rfl]
  rfl

/-- A method of an object's own is called. -/
theorem outcome_call (hR : R.Intact h) :
    (R.call (.object R.hasOwnProperty) (.object id) [.string text]).outcome store =
      (.ok (.boolean (store.rest.own? id text).isSome), store) := by
  have hne : Value.object R.hasOwnProperty ≠ .object R.functionCall :=
    fun heq => hR.isNoCall (Value.object.inj heq)
  rw [call, if_neg hne]
  exact outcome_hasOwn

theorem outcome_call_true (receiver : Value) (args : List Value) :
    (R.call (.boolean true) receiver args).outcome store = (.error R.typeError, store) := by
  rw [call, if_neg (by simp), native, Run.outcome_bind_of_ok (Run.outcome_get store),
    if_neg (by simp), if_neg (by simp)]
  rfl

theorem outcome_export (hR : R.Intact h) {o : Obj} (ho : store.rest.objects[id]? = some o) :
    (R.call (.object R.exporter) .undefined [.object id]).outcome store = (.ok (.object id),
      { store with rest := { store.rest with passed := store.rest.passed ++ [o.entries] } }) := by
  have hcall : Value.object R.exporter ≠ .object R.functionCall :=
    fun heq => hR.exporter.1 (Value.object.inj heq)
  have hown : Value.object R.exporter ≠ .object R.hasOwnProperty :=
    fun heq => hR.exporter.2 (Value.object.inj heq)
  rw [call, if_neg hcall, native, Run.outcome_bind_of_ok (Run.outcome_get store), if_neg hown,
    if_pos rfl]
  simp only [ho, Option.elim_some]
  rfl

end Realm

/-! ## Calls of methods -/

namespace Realm
variable {R : Realm} {h : Heap} {store : Store Heap} {owner : Expr} {id : Nat} {f : Value}

theorem outcome_dot (howner : (eval R.world owner).outcome store = (.ok (.object id), store))
    {name : String} {v : Value} (hlookup : store.rest.lookup id name = some (.value v)) :
    (eval R.world (owner.dot name)).outcome store = (.ok v, store) :=
  (Dynamic.outcome_dot howner name).trans (outcome_getProperty (R := R) hlookup)

theorem outcome_lookup (howner : (eval R.world owner).outcome store = (.ok (.object id), store))
    {key : Expr} {text : String} (hkey : (eval R.world key).outcome store = (.ok (.string text), store))
    {v : Value} (hlookup : store.rest.lookup id text = some (.value v)) :
    (eval R.world (owner.lookup key)).outcome store = (.ok v, store) :=
  (Dynamic.outcome_lookup howner hkey).trans (outcome_getProperty (R := R) hlookup)

/-- A method is called on the object that it is read from. -/
theorem outcome_method (howner : (eval R.world owner).outcome store = (.ok (.object id), store))
    {name : String} (hlookup : store.rest.lookup id name = some (.value f)) {args : List Expr}
    (hspread : args.any isSpread = false) {vs : List Value}
    (hargs : (evalEach R.world args).outcome store = (.ok vs, store)) :
    (eval R.world ((owner.dot name).apply args)).outcome store =
      (R.call f (.object id) vs).outcome store :=
  Dynamic.outcome_method howner (outcome_getProperty (R := R) hlookup) hspread hargs

end Realm

/-! ## Objects that are written -/

namespace Obj

def ofEntries (entries : List (String × Value)) (proto : Option Nat) : Obj :=
  ⟨entries.map fun entry => ⟨entry.1, .value entry.2, true⟩, proto⟩

variable {entries : List (String × Value)} {proto : Option Nat} {key : String} {v : Value}

@[simp] theorem entries_ofEntries : (ofEntries entries proto).entries = entries := by
  simp only [Obj.entries, ofEntries, List.filterMap_map]
  exact List.filterMap_some

theorem content?_ofEntries :
    (ofEntries entries proto).content? key = (entries.lookup key).map .value := by
  induction entries with
  | nil => rfl
  | cons entry entries ih =>
    obtain ⟨k, v⟩ := entry
    unfold content? at ih ⊢
    simp only [ofEntries, List.map_cons, List.find?_cons, List.lookup_cons] at ih ⊢
    by_cases hkey : k = key
    · simp [hkey]
    · have hne : (key == k) = false := beq_false_of_ne (Ne.symm hkey)
      rw [beq_false_of_ne hkey, hne]
      exact ih

theorem define_ofEntries (hnew : key ∉ entries.map Prod.fst) :
    (ofEntries entries proto).define key v = ofEntries (entries ++ [(key, v)]) proto := by
  have hnone : (ofEntries entries proto).content? key = none := by
    rw [content?_eq_none]
    simpa [ofEntries] using hnew
  rw [define, hnone]
  simp [ofEntries]

end Obj

/-- The properties of a list of names are written with the value `true`. -/
theorem Realm.mapM_entry? (names : List String) :
    (names.map fun name => Property.ofString name (.ofBool true)).mapM entry? =
      some (names.map fun name => (name, .boolean true)) := by
  induction names with
  | nil => rfl
  | cons name names ih =>
    rw [List.map_cons, List.mapM_cons, ih]
    rfl

theorem Realm.other_object (R : Realm) {properties : List Property}
    {entries : List (String × Value)} (h : properties.mapM entry? = some entries) :
    R.world.other (.object properties) = allocate (R.objectOf entries) := by
  simp only [world, h]

/-- A literal has the properties that are written, but for `__proto__`. -/
theorem Realm.objectOf_true (R : Realm) {names : List String} (hnodup : names.Nodup) :
    R.objectOf (names.map fun name => (name, .boolean true)) =
      .ofEntries ((names.filter (· ≠ "__proto__")).map fun name => (name, .boolean true))
        (some R.objectPrototype) := by
  have hfold : ∀ (rest done : List String), (done ++ rest).Nodup →
      (rest.map fun name => (name, Value.boolean true)).foldl
          (fun o entry => o.defineLiteral entry.1 entry.2)
          (Obj.ofEntries ((done.filter (· ≠ "__proto__")).map fun name => (name, .boolean true))
            (some R.objectPrototype)) =
        .ofEntries (((done ++ rest).filter (· ≠ "__proto__")).map fun name => (name, .boolean true))
          (some R.objectPrototype) := by
    intro rest
    induction rest with
    | nil => exact fun done _ => by rw [List.append_nil]; rfl
    | cons name rest ih =>
      intro done hdone
      have hnext : (done ++ [name] ++ rest).Nodup := by simpa using hdone
      have hrest := ih (done ++ [name]) hnext
      rw [List.append_assoc, List.singleton_append] at hrest
      rw [List.map_cons, List.foldl_cons, ← hrest]
      congr 1
      by_cases hproto : name = "__proto__"
      · simp [Obj.defineLiteral, hproto, Obj.inherit]
      · have hfresh : name ∉ done := fun hmem =>
          (List.nodup_append.mp hdone).2.2 name hmem name List.mem_cons_self rfl
        have hnew : name ∉ ((done.filter (· ≠ "__proto__")).map fun name =>
            (name, Value.boolean true)).map Prod.fst := by
          simpa using fun hmem => absurd hmem hfresh
        rw [Obj.defineLiteral, if_neg hproto, Obj.define_ofEntries hnew]
        simp [hproto]
  exact hfold names [] hnodup

end RegisterForm.Dynamic
