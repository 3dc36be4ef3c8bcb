import RegisterForm.Proofs.Dynamic.Destructured
/-!
# The keys that a rest leaves out

A rest is to leave out what the other properties of its pattern read, so the keys that it is given
should be the keys of these properties, as a value has them: a text, or a symbol. A number that is
written otherwise than its property is named is left out as it is written; where there is none, the
keys are those that were read.
-/
namespace RegisterForm.Dynamic
open Lowering

variable {σ : Type}

/-! ## Keys of properties -/

/-- What is read under an object is read under the key that the object is converted to, and adding
an empty text to the object converts it in the same way. -/
structure World.Converts (w : World σ) (convert : Nat → Run σ Value) : Prop where
  read : ∀ owner id, w.getProperty owner (.object id) = do w.getProperty owner (← convert id)
  joined : ∀ id, w.binary .add (.object id) (.string "") = convert id

/-- The key of the property that is read under a value, whatever the source has for it. -/
def asRead (convert : Nat → Run σ Value) : Exclusion σ
  | _, .symbol id => return .symbol id
  | _, .object id => convert id
  | _, k => return .string (k.text?.getD "")

theorem keyOf_eq_asRead {w : World σ} {convert : Nat → Run σ Value} (hw : w.Converts convert)
    (key : Key) (k : Value) : keyOf w k = asRead convert key k := by
  cases k with
  | object id =>
    have hnone : w.typeText (.object id) ≠ "symbol" := by
      show (if w.isCallable id then "function" else "object") ≠ "symbol"
      split <;> decide
    rw [keyOf, if_neg hnone]
    exact hw.joined id
  | symbol id => rfl
  | undefined | null | boolean | number | string =>
    simp [keyOf, World.typeText, World.add, Value.text?, Value.isString, asRead]

mutual

/-- The numbers that are written for keys beside a rest. -/
def patternRestNumbers : Pattern → List String
  | .ident _ | .expr _ => []
  | .object ps rest => propertiesRestNumbers rest.isSome ps ++ restRestNumbers rest
  | .array es rest => slotsRestNumbers es ++ restRestNumbers rest

def restRestNumbers : Option Pattern → List String
  | none => []
  | some p => patternRestNumbers p

def propertyRestNumbers (hasRest : Bool) : PatternProperty → List String
  | .keyed (.number source) target _ =>
    (if hasRest then [source] else []) ++ patternRestNumbers target
  | .keyed _ target _ => patternRestNumbers target
  | .shorthand _ _ => []

def propertiesRestNumbers (hasRest : Bool) : List PatternProperty → List String
  | [] => []
  | p :: ps => propertyRestNumbers hasRest p ++ propertiesRestNumbers hasRest ps

def elementRestNumbers : PatternElement → List String
  | ⟨target, _⟩ => patternRestNumbers target

def slotRestNumbers : Option PatternElement → List String
  | none => []
  | some e => elementRestNumbers e

def slotsRestNumbers : List (Option PatternElement) → List String
  | [] => []
  | e :: es => slotRestNumbers e ++ slotsRestNumbers es

end

def partRestNumbers : Part → List String
  | .pattern p => patternRestNumbers p
  | .rest p => restRestNumbers p
  | .property hasRest p => propertyRestNumbers hasRest p
  | .properties hasRest ps => propertiesRestNumbers hasRest ps
  | .slot e => slotRestNumbers e
  | .slots _ es => slotsRestNumbers es

section
variable {s : Setting} {bound : List String} {value : Expr} {exprs keys : List Expr}
  {ts : List String}

theorem takesApart_isSome {rest rest' : Option Pattern}
    (h : TakesApart s bound (.rest rest) (.rest rest') value exprs keys ts) :
    rest'.isSome = rest.isSome := by
  cases h <;> rfl

/-- Lowering leaves the keys that are written as they are. -/
theorem takesApart_restNumbers {part part' : Part}
    (h : TakesApart s bound part part' value exprs keys ts) :
    partRestNumbers part' = partRestNumbers part := by
  induction h with
  | ident | expr | noRest | noProperties | hole | noSlots => rfl
  | object _ _ hrest ihps ihrest =>
    simp_all [partRestNumbers, patternRestNumbers, takesApart_isSome hrest]
  | array _ _ _ ihes ihrest => simp_all [partRestNumbers, patternRestNumbers]
  | someRest _ ih => exact ih
  | keyed hkey _ _ ih =>
    cases hkey <;> simp_all [partRestNumbers, propertyRestNumbers]
  | shorthand => rfl
  | properties _ _ ihp ihps => simp_all [partRestNumbers, propertiesRestNumbers]
  | element _ _ ih => exact ih
  | slots _ _ ihe ihes => simp_all [partRestNumbers, slotsRestNumbers]

end

/-! ## Two exclusions -/

/-- The numbers are written as their properties are named. -/
def World.NamesNumbers (w : World σ) (sources : List String) : Prop :=
  ∀ source ∈ sources, w.numberText source = source

theorem World.NamesNumbers.append {w : World σ} {xs ys : List String}
    (h : w.NamesNumbers (xs ++ ys)) : w.NamesNumbers xs ∧ w.NamesNumbers ys :=
  List.forall_mem_append.mp h

section
variable {w : World σ} {convert : Nat → Run σ Value} {s : Setting}

/-- Where there is no rest, what follows does not ask for the key that is left out. -/
theorem bind_readKey (hw : w.Converts convert) {β : Type} {hasRest : Bool} {key : Key}
    (m : Run σ Value)
    (hnumbers : ∀ source, key = .number source → hasRest = true → w.numberText source = source)
    {f : Run σ Value × Run σ Value → Run σ β}
    (hf : hasRest = false → ∀ access e e', f (access, e) = f (access, e')) :
    readKey w (asWritten w) hasRest m key >>= f = readKey w (asRead convert) hasRest m key >>= f := by
  cases key with
  | name | string => rfl
  | number source =>
    cases hasRest with
    | false => exact hf rfl _ _ _
    | true =>
      have hsame : asWritten w (.number source) (.number (w.numberText source)) =
          asRead convert (.number source) (.number (w.numberText source)) := by
        rw [hnumbers source rfl rfl]
        rfl
      simp only [readKey, hsame]
  | computed e =>
    cases hasRest with
    | false => rfl
    | true => simp only [readKey, asWritten, keyOf_eq_asRead hw (.computed e)]

mutual

theorem take_asRead (hw : w.Converts convert) : (p : Pattern) →
    w.NamesNumbers (patternRestNumbers p) → ∀ m,
    take w s (asWritten w) p m = take w s (asRead convert) p m
  | .ident _, _, _ | .expr _, _, _ => rfl
  | .object ps rest, hnumbers, m => by
    obtain ⟨hps, hrest⟩ := hnumbers.append
    refine bind_congr fun m => ?_
    refine (takeProperties_asRead hw ps hps m fun hnone _ _ => ?_).trans (bind_congr fun keys =>
      takeRest_asRead hw rest hrest _)
    cases rest with
    | none => rfl
    | some _ => cases hnone
  | .array es rest, hnumbers, m => by
    obtain ⟨hes, hrest⟩ := hnumbers.append
    refine bind_congr fun m => ?_
    rw [takeSlots_asRead hw 0 es hes, takeRest_asRead hw rest hrest]

theorem takeRest_asRead (hw : w.Converts convert) : (p : Option Pattern) →
    w.NamesNumbers (restRestNumbers p) → ∀ m,
    takeRest w s (asWritten w) p m = takeRest w s (asRead convert) p m
  | none, _, _ => rfl
  | some p, hnumbers, m => take_asRead hw p hnumbers m

theorem takeProperty_asRead (hw : w.Converts convert) {hasRest : Bool} : (p : PatternProperty) →
    w.NamesNumbers (propertyRestNumbers hasRest p) →
    ∀ {β : Type} (m : Run σ Value) {f : Run σ Value → Run σ β},
    (hasRest = false → ∀ e e', f e = f e') →
    takeProperty w s (asWritten w) hasRest p m >>= f =
      takeProperty w s (asRead convert) hasRest p m >>= f
  | .keyed key target fallback, hnumbers, _, m, f, hf => by
    have htarget : w.NamesNumbers (patternRestNumbers target) := by
      cases key with
      | number => exact hnumbers.append.2
      | name | string | computed => exact hnumbers
    rw [takeProperty, takeProperty, bind_assoc, bind_assoc]
    refine (bind_readKey hw m ?_ fun hnone access e e' => ?_).trans (bind_congr fun ⟨access, e⟩ => ?_)
    · rintro source rfl rfl
      exact hnumbers.append.1 source (List.mem_singleton_self _)
    · simp only [bind_assoc, pure_bind, hf hnone e e']
    · simp only [take_asRead hw target htarget]
  | .shorthand x fallback, _, _, _, _, _ => rfl

theorem takeProperties_asRead (hw : w.Converts convert) {hasRest : Bool} :
    (ps : List PatternProperty) → w.NamesNumbers (propertiesRestNumbers hasRest ps) →
    ∀ {β : Type} (m : Run σ Value) {f : List (Run σ Value) → Run σ β},
    (hasRest = false → ∀ es es', f es = f es') →
    takeProperties w s (asWritten w) hasRest ps m >>= f =
      takeProperties w s (asRead convert) hasRest ps m >>= f
  | [], _, _, _, _, _ => rfl
  | p :: ps, hnumbers, _, m, f, hf => by
    obtain ⟨hp, hps⟩ := hnumbers.append
    rw [takeProperties, takeProperties, bind_assoc, bind_assoc]
    simp only [bind_assoc, pure_bind]
    refine (takeProperty_asRead hw p hp m fun hnone e e' => ?_).trans (bind_congr fun e => ?_)
    · exact bind_congr fun es => hf hnone _ _
    · exact takeProperties_asRead hw ps hps m fun hnone _ _ => hf hnone _ _

theorem takeElement_asRead (hw : w.Converts convert) : (e : PatternElement) →
    w.NamesNumbers (elementRestNumbers e) → ∀ m,
    takeElement w s (asWritten w) e m = takeElement w s (asRead convert) e m
  | ⟨target, fallback⟩, hnumbers, m => by
    exact bind_congr fun m => take_asRead hw target hnumbers m

theorem takeSlot_asRead (hw : w.Converts convert) : (e : Option PatternElement) →
    w.NamesNumbers (slotRestNumbers e) → ∀ m,
    takeSlot w s (asWritten w) e m = takeSlot w s (asRead convert) e m
  | none, _, _ => rfl
  | some e, hnumbers, m => takeElement_asRead hw e hnumbers m

theorem takeSlots_asRead (hw : w.Converts convert) (index : Nat) :
    (es : List (Option PatternElement)) → w.NamesNumbers (slotsRestNumbers es) → ∀ m,
    takeSlots w s (asWritten w) index es m = takeSlots w s (asRead convert) index es m
  | [], _, _ => rfl
  | e :: es, hnumbers, m => by
    obtain ⟨he, hes⟩ := hnumbers.append
    show (do takeSlot w s (asWritten w) e _; takeSlots w s (asWritten w) (index + 1) es m) = _
    rw [takeSlot_asRead hw e he, takeSlots_asRead hw (index + 1) es hes]
    rfl

end

end

/-! ## Patterns that are taken apart -/

/-- What a pattern is taken apart into leaves out, for each rest, the keys of the properties that
the pattern reads beside it. -/
theorem flatten_takes_asRead {s : Setting} {p : Pattern} {bound : List String} {q q' : Progress}
    {depth : Nat} {value : Expr} {exprs : List Expr}
    (hknows : q.Knows s (p.visits ++ value.visits))
    (hr : (p.flatten s bound depth value).run q = .ok (exprs, q')) :
    ∃ p' ts, TakesApart s bound (.pattern p) (.pattern p') value exprs [] ts ∧
      (∀ t ∈ ts, q.IsFree t) ∧ ∀ {σ : Type} (w : World σ) (convert : Nat → Run σ Value)
        (kept : List String) (store : Store σ), w.Local ts → isSpread value = false →
        Undisturbed w bound kept p' value →
        (∀ name ∈ kept, (store.vars name).isSome = true ∧ name ∉ ts) →
        w.Converts convert → w.NamesNumbers (patternRestNumbers p) →
        Run.AgreesBut ts store (evalAll w exprs) (take w s (asRead convert) p' (eval w value)) := by
  obtain ⟨p', ts, htakes, hfree, hagrees⟩ := flatten_takes hknows hr
  refine ⟨p', ts, htakes, hfree, fun w convert kept store hlocal hsingle hkeeps hkept hconverts
    hnumbers => ?_⟩
  have hnumbers' : w.NamesNumbers (patternRestNumbers p') := by
    rwa [show patternRestNumbers p' = patternRestNumbers p from takesApart_restNumbers htakes]
  rw [← take_asRead hconverts p' hnumbers' (eval w value)]
  exact hagrees w kept store hlocal hsingle hkeeps hkept

end RegisterForm.Dynamic
