import RegisterForm.Proofs.Dynamic.Excluded
import RegisterForm.Proofs.Dynamic.Remaining
/-!
# A rest leaves out what is read

The keys that a rest is given are those of the properties that its pattern reads, as long as the
numbers among them are written as the properties are named, and the object that is made for them has
all other properties of the value. The number `0x10` names the property `16` and is left out as
`0x10`.
-/
namespace RegisterForm.Dynamic
open Lowering Vocabulary

/-- A pattern that is taken apart leaves out, for each of its rests, the keys of the properties that
it reads beside the rest, in order, if the numbers among the keys are written as the properties are
named; and what `__rest` makes for a list of keys has exactly the other own enumerable properties of
the object, while all objects that were there stay as they were. -/
theorem rest_leaves_out_read (s : Setting) (p : Pattern) (L : Library) :
    (∀ {bound : List String} {q q' : Progress} {depth : Nat} {value : Expr} {exprs : List Expr},
      q.Knows s (p.visits ++ value.visits) →
      (p.flatten s bound depth value).run q = .ok (exprs, q') →
      ∃ p' ts, TakesApart s bound (.pattern p) (.pattern p') value exprs [] ts ∧
        (∀ t ∈ ts, q.IsFree t) ∧ ∀ {σ : Type} (w : World σ) (convert : Nat → Run σ Value)
          (kept : List String) (store : Store σ), w.Local ts → isSpread value = false →
          Undisturbed w bound kept p' value →
          (∀ name ∈ kept, (store.vars name).isSome = true ∧ name ∉ ts) →
          w.Converts convert → w.NamesNumbers (patternRestNumbers p) →
          Run.AgreesBut ts store (evalAll w exprs)
            (take w s (asRead convert) p' (eval w value))) ∧
    ∀ {m rounds : Nat} {keys : List Value} {x : Run Memory Value} {ks : List (Run Memory Value)}
      {store store₁ store₂ : Store Memory},
      store.vars restName = some (.object L.copier) →
      x.outcome store = (.ok (.object m), store₁) →
      (ks.mapM id).outcome store₁ = (.ok keys, store₂) →
      L.CanCopy m store₂ → (store₂.rest.symbols m).length < rounds →
      ∃ M' copy, (remaining (L.world rounds) x ks).outcome store =
          (.ok (.object copy), { store₂ with rest := M' }) ∧
        L.IsRest store₂.rest m keys M' copy :=
  ⟨flatten_takes_asRead, outcome_remaining⟩

/-! ## Patterns with a rest -/

/-- `{ key: a, ...r }` -/
def restOf (key : Key) : Pattern :=
  .object [.keyed key (.ident ⟨.numbered 0, "a"⟩) none] (some (.ident ⟨.numbered 1, "r"⟩))

/-- `var { key: a, ...r } = o;` -/
def restFile (key : Key) : SourceFile where
  id := .numbered 10
  name := "m.ts"
  statements := [.var {} ⟨.var, [⟨restOf key, some (.ident ⟨.numbered 2, "o"⟩)⟩]⟩]

/-- Nothing in `{ 16: a, ...r }` writes to `o`. -/
theorem undisturbed_restOf {w : World Unit} {s : Setting} {p' : Pattern} {m : Expr}
    {exprs : List Expr} {us : List String} {source : String} (hw : w.Keeps ["o"])
    (h : TakesApart s ["a", "r"] (.pattern (restOf (.number source))) (.pattern p') m exprs [] us) :
    Undisturbed w ["a", "r"] ["o"] p' (.ident ⟨.numbered 2, "o"⟩) := by
  obtain rfl : p' = restOf (.number source) := by
    cases h with | object hheld hps hrest =>
    cases hrest with | someRest hrest =>
    cases hrest
    cases hps with | properties hfirst hps =>
    cases hps
    cases hfirst with | keyed hkey hfallback htarget =>
    cases hkey
    cases hfallback
    cases htarget
    rfl
  refine ⟨hw, ⟨?_, fun _ he => (nomatch he), fun _ he => (nomatch he)⟩, .read _ _, ?_⟩
  · exact List.forall_mem_cons.mpr ⟨by simp [LeafKeeps], List.forall_mem_singleton.mpr
      (by simp [LeafKeeps])⟩
  · rintro _ ⟨⟩ -
    exact List.mem_singleton_self _

/-! ## Worlds -/

/-- A value is told by the path that leads to it, and all objects have one text. -/
def labels : World Unit :=
  { paths with
    getProperty := fun owner key =>
      return .string (owner.text?.getD "object" ++ "." ++ key.text?.getD "object")
    binary := fun _ _ _ => return .string "object" }

theorem labels_local (ts : List String) : labels.Local ts :=
  { paths_local ts with
    getProperty := fun _ _ => .pure trivial
    binary := fun _ _ _ => .pure trivial }

theorem labels_keeps (kept : List String) : labels.Keeps kept :=
  { paths_keeps kept with
    getProperty := fun _ _ => .pure _
    binary := fun _ _ _ => .pure _ }

theorem labels_converts : labels.Converts fun _ => return .string "object" where
  read _ _ := rfl
  joined _ := rfl

/-- The built-in objects come first, and errors are an object among them. -/
def plainLibrary : Library where
  object := 0
  objectPrototype := 1
  functionPrototype := 2
  hasOwnProperty := 3
  functionCall := 4
  exporter := 5
  typeError := .object 6
  referenceError := .object 6
  arrayPrototype := 7
  indexOf := 8
  propertyIsEnumerable := 9
  getOwnPropertySymbols := 10
  copier := 11
  numberText source := if source = "0x10" then "16" else source

/-- The built-in objects, and another object after them. -/
def plainMemory (o : Obj) (symbols : List SymbolSlot) : Memory where
  heap := ⟨[
    ⟨[⟨"prototype", .value (.object 1), false⟩,
      ⟨"getOwnPropertySymbols", .value (.object 10), false⟩], some 2⟩,
    ⟨[⟨"hasOwnProperty", .value (.object 3), false⟩,
      ⟨"propertyIsEnumerable", .value (.object 9), false⟩, ⟨"__proto__", .prototypeAccess, false⟩],
      none⟩,
    ⟨[⟨"call", .value (.object 4), false⟩], some 1⟩, ⟨[], some 2⟩, ⟨[], some 2⟩, ⟨[], some 2⟩,
    ⟨[], some 1⟩, ⟨[⟨"indexOf", .value (.object 8), false⟩], some 1⟩, ⟨[], some 2⟩, ⟨[], some 2⟩,
    ⟨[], some 2⟩, ⟨[], some 2⟩, o], []⟩
  symbols id := if id = 12 then symbols else []

/-- The object is `o`. -/
def plainStore (o : Obj) (symbols : List SymbolSlot) : Store Memory where
  vars x :=
    if x = "Object" then some (.object 0) else if x = restName then some (.object 11)
    else if x = "o" then some (.object 12) else none
  rest := plainMemory o symbols

theorem plainLibrary_intact (o : Obj) (symbols : List SymbolSlot) :
    plainLibrary.Intact (plainMemory o symbols).heap where
  prototype := rfl
  method := rfl
  root := rfl
  access key hkey := by
    obtain ⟨s, hfound, hcontent⟩ := Option.map_eq_some_iff.mp hkey
    have hname : s.key = key := by simpa using List.find?_some hfound
    rcases List.mem_cons.mp (List.mem_of_find?_eq_some hfound) with rfl | hmem
    · cases hcontent
    rcases List.mem_cons.mp hmem with rfl | hmem
    · cases hcontent
    obtain rfl := List.mem_singleton.mp hmem
    exact hname.symm
  inherits := rfl
  noCall := rfl
  call := rfl
  isNoCall := by decide
  exporter := by decide
  symbols := rfl
  enumerable := rfl
  enumerableInherits := rfl
  enumerableNoCall := rfl
  indexOf := rfl
  distinct := by decide
  zero := by decide

/-- `16`, `b` and two symbols. -/
def numbered : Obj := .ofEntries [("16", .string "x"), ("b", .string "y")] (some 1)

theorem numbered_canCopy (symbols : List SymbolSlot) (h : (symbols.map (·.symbol)).Nodup) :
    plainLibrary.CanCopy 12 (plainStore numbered symbols) where
  intact := plainLibrary_intact _ _
  object := rfl
  plain := ⟨numbered, rfl, {
    keysOnce := by decide
    values := by
      intro s hs _
      rcases List.mem_cons.mp hs with rfl | hs
      · exact ⟨by decide, _, rfl⟩
      · obtain rfl := List.mem_singleton.mp hs
        exact ⟨by decide, _, rfl⟩ }⟩
  symbolsOnce := h
  fresh id hid := if_neg (Nat.ne_of_gt hid)

/-- Of `16`, `b` and two symbols, `b` and the second symbol are left when `16` and the first symbol
are read. -/
theorem rest_leaves_out_read_pair :
    (let made := Setting.ofFile {} (.ofFile (restFile (.number "16"))) (restFile (.number "16"))
    let p := restOf (.number "16")
    let value : Expr := .ident ⟨.numbered 2, "o"⟩
    let q : Progress := { hoisting := made.2 }
    q.Knows made.1 (p.visits ++ value.visits) ∧ labels.NamesNumbers (patternRestNumbers p) ∧
      ∃ exprs q' p' ts, (p.flatten made.1 ["a", "r"] 0 value).run q = .ok (exprs, q') ∧
        Run.AgreesBut ts rooted (evalAll labels exprs)
          (take labels made.1 (asRead fun _ => return .string "object") p' (eval labels value))) ∧
    let slots : List SymbolSlot := [⟨5, .string "v", true⟩, ⟨6, .string "w", true⟩]
    let store := plainStore numbered slots
    plainLibrary.CanCopy 12 store ∧ ∃ M' copy,
      (remaining (plainLibrary.world 3) (pure (.object 12))
        [pure (.string "16"), pure (.symbol 5)]).outcome store =
          (.ok (.object copy), { store with rest := M' }) ∧
      M'.entries copy = [(.string "b", .string "y"), (.symbol 6, .string "w")] := by
  have hrest := rest_leaves_out_read
    (Setting.ofFile {} (.ofFile (restFile (.number "16"))) (restFile (.number "16"))).1
    (restOf (.number "16")) plainLibrary
  constructor
  · intro made p value q
    have hknows : q.Knows made.1 (p.visits ++ value.visits) :=
      ⟨by decide +kernel, by decide +kernel, fun _ _ h => (by cases h), by decide +kernel⟩
    have hnamed : labels.NamesNumbers (patternRestNumbers p) := fun _ _ => rfl
    obtain ⟨exprs, q', hr⟩ : ∃ exprs q', (p.flatten made.1 ["a", "r"] 0 value).run q =
        .ok (exprs, q') := ⟨_, _, rfl⟩
    obtain ⟨p', ts, htakes, hfree, hall⟩ := hrest.1 hknows hr
    refine ⟨hknows, hnamed, exprs, q', p', ts, hr, hall labels _ ["o"] rooted (labels_local ts) rfl
      (undisturbed_restOf (labels_keeps _) htakes) ?_ labels_converts hnamed⟩
    intro name hname
    obtain rfl := List.mem_singleton.mp hname
    exact ⟨rfl, fun hmem => Progress.not_isFree (by decide +kernel) (hfree _ hmem)⟩
  · intro slots store
    have hcan : plainLibrary.CanCopy 12 store := numbered_canCopy slots (by decide)
    have hkeys : ([pure (.string "16"), pure (.symbol 5)] : List (Run Memory Value)).mapM id =
        pure [.string "16", .symbol 5] := rfl
    have hrounds : (store.rest.symbols 12).length < 3 := by decide
    obtain ⟨M', copy, hout, hisRest⟩ := hrest.2 rfl
      (Run.outcome_pure (Value.object 12) store) (congrArg (·.outcome store) hkeys) hcan hrounds
    exact ⟨hcan, M', copy, hout, hisRest.entries.trans (by decide +kernel)⟩

/-- `{ 0x10: a, ...r }` reads the property `16` and does not leave it out. -/
theorem number_not_left_out :
    let made := Setting.ofFile {} (.ofFile (restFile (.number "0x10"))) (restFile (.number "0x10"))
    let q : Progress := { hoisting := made.2 }
    let value : Expr := .ident ⟨.numbered 2, "o"⟩
    ∃ exprs q', ((restOf (.number "0x10")).flatten made.1 ["a", "r"] 0 value).run q =
        .ok (exprs, q') ∧
      let store := ((evalAll (plainLibrary.world 1) exprs).outcome (plainStore numbered [])).2
      store.vars "a" = some (.string "x") ∧ store.vars "r" = some (.object 14) ∧
        store.rest.entries 14 = [(.string "16", .string "x"), (.string "b", .string "y")] :=
  ⟨_, _, rfl, by decide +kernel, by decide +kernel, by decide +kernel⟩

end RegisterForm.Dynamic
