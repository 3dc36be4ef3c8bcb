import RegisterForm.Proofs.Dynamic.Sequence
/-!
# Destructuring reads the value that was there

A pattern reads, at each of its levels, from the value that the source of the level had, and an
assignment to it has the value that its right side had: whatever the targets, the defaults and the
keys do, as long as none of them assigns a variable that is used again. Such a variable is one that
the pattern does not bind itself; a default may assign it all the same.
-/
namespace RegisterForm.Dynamic
open Lowering Vocabulary

variable {σ : Type}

/-- From a store, the computation does what the other one does, some variables aside. -/
def Run.AgreesBut {α : Type} (ts : List String) (store : Store σ) (x y : Run σ α) : Prop :=
  ∃ f, x.outcome store = ((y.outcome store).1, (y.outcome store).2.holding ts f)

/-- Nothing that is evaluated while a pattern takes a value writes to the variables that are kept.
The variables that are used again are among these. -/
structure Undisturbed (w : World σ) (bound kept : List String) (p : Pattern) (e : Expr) :
    Prop where
  world : w.Keeps kept
  part : PartKeeps w bound kept (.pattern p)
  value : Keeps kept (eval w e)
  reuses : Reuses bound kept e

theorem Simulates.agreesBut {α : Type} {ts kept : List String} {x y : Run σ α} {store : Store σ}
    (hkept : ∀ name ∈ kept, (store.vars name).isSome = true)
    (h : ∀ K : List (String × Value), (∀ name ∈ kept, ∃ v, (name, v) ∈ K) → (∀ p ∈ K, p.1 ∈ kept) →
      Simulates ts kept K x y) : Run.AgreesBut ts store x y := by
  have hself : store.holding ts store.vars = store := by
    refine congrArg (Store.mk · store.rest) (funext fun name => ?_)
    exact ite_self _
  let K := kept.map fun name => (name, (store.vars name).getD .undefined)
  have hK : ∀ name ∈ kept, ∃ v, (name, v) ∈ K := fun name hname =>
    ⟨_, List.mem_map_of_mem hname⟩
  have hnamed : ∀ p ∈ K, p.1 ∈ kept := by
    intro p hp
    obtain ⟨name, hname, rfl⟩ := List.mem_map.mp hp
    exact hname
  have hknown : Known ts kept K (store.holding ts store.vars) := by
    rw [hself]
    intro p hp
    obtain ⟨name, hname, rfl⟩ := List.mem_map.mp hp
    obtain ⟨v, hv⟩ := Option.isSome_iff_exists.mp (hkept name hname)
    exact ⟨.inr hname, by simp [hv]⟩
  have hout := h K hK hnamed store.vars store hknown
  rwa [hself] at hout

theorem eval_ofList_append_singleton (w : World σ) (es : List Expr) (e d : Expr) :
    eval w ((Expr.ofList (es ++ [e])).getD d) = (do evalAll w es; eval w e) := by
  cases es with
  | nil => rfl
  | cons e₁ es =>
    have hlist : (Expr.ofList (e₁ :: es ++ [e])).getD d = .sequence (e₁ :: es ++ [e]) := by
      cases es <;> rfl
    rw [hlist, eval_sequence, evalLast_append_singleton]

section
variable {s : Setting} {p : Pattern} {bound : List String} {q q' : Progress}

/-- What a pattern is taken apart into does what taking the value apart means. -/
theorem flatten_takes {depth : Nat} {value : Expr} {exprs : List Expr}
    (hknows : q.Knows s (p.visits ++ value.visits))
    (hr : (p.flatten s bound depth value).run q = .ok (exprs, q')) :
    ∃ p' ts, TakesApart s bound (.pattern p) (.pattern p') value exprs [] ts ∧
      (∀ t ∈ ts, q.IsFree t) ∧ ∀ {σ : Type} (w : World σ) (kept : List String) (store : Store σ),
        w.Local ts → isSpread value = false → Undisturbed w bound kept p' value →
        (∀ name ∈ kept, (store.vars name).isSome = true ∧ name ∉ ts) →
        Run.AgreesBut ts store (evalAll w exprs) (take w s (asWritten w) p' (eval w value)) := by
  have hs := hknows.spokenIn
  obtain ⟨hp, hvalue⟩ := (covers_append _ _).mp hknows.covers
  obtain ⟨p', ts, htakes, hmakes⟩ := p.flatten_takesApart hs bound hp hr
  have hfree := hmakes.draws.isFree
  refine ⟨p', ts, htakes, hfree, fun w kept store hlocal hsingle hkeeps hkept => ?_⟩
  have hw : Ambience w s ts kept := ⟨hlocal, hkeeps.world, hs.sparing_mono hfree⟩
  refine Simulates.agreesBut (fun name hname => (hkept name hname).1) fun K hK hnamed => ?_
  have hvacant : Vacant ts K ts := ⟨hmakes.draws.supply.nodup, List.Subset.refl _,
    fun p hp => (hkept p.1 (hnamed p hp)).2⟩
  have hparts : Spares ts p'.visits := fun v hv => ⟨fun x hx hmem =>
    (hmakes.spares x.name (hfree _ hmem) (.inr (.inl hmem)) v hv).mentions x hx rfl,
    fun _ _ => trivial, fun _ _ => trivial⟩
  have hstands : Stands w ts kept bound K value (eval w value) :=
    ⟨hsingle, fun x he hreusable => hK _ (hkeeps.reuses x he hreusable),
      .eval hw (covers_sparing_mono hfree hvalue) hkeeps.value⟩
  have hall := simulates_takePart hw htakes (x := pure ()) (g := fun _ => pure ()) hK hvacant hparts
    hkeeps.part hstands fun _ _ _ _ => .of_matches (.pure ())
  simpa [takePart] using hall

/-- An assignment whose value is used, to a pattern that is taken apart. What it has become takes the
value apart as the pattern means it, and has the value that its right side had. -/
theorem lower_assign_takes {e e' : Expr} (hpattern : p.isDestructuring = true)
    (hexported : s.hasExportedLeaf p = true) (hknows : q.Knows s (p.visits ++ e.visits))
    (hr : ((Expr.assign .plain p e).lower s true).run q = .ok (e', q')) :
    ∃ value p' ts us held m exprs, Lowers s e value ∧ Held p.boundNames value held m ts ∧
      TakesApart s p.boundNames (.pattern p) (.pattern p') m exprs [] us ∧
      (∀ t ∈ ts ++ us, q.IsFree t) ∧
      ∀ {σ : Type} (w : World σ) (kept : List String) (store : Store σ), w.Local (ts ++ us) →
        Undisturbed w p.boundNames kept p' value →
        (∀ name ∈ kept, (store.vars name).isSome = true ∧ name ∉ ts ++ us) →
        Run.AgreesBut (ts ++ us) store (eval w e') (do
          let v ← eval w value
          take w s (asWritten w) p' (pure v)
          return v) := by
  have hs := hknows.spokenIn
  obtain ⟨hp, he⟩ := (covers_append _ _).mp hknows.covers
  obtain ⟨-, q₁, hr, -⟩ := run_deeper_eq_ok hr
  dsimp only at hr
  rw [hpattern, hexported, if_pos (by rfl)] at hr
  obtain ⟨value, q₂, hlower, hr⟩ := run_bind_eq_ok hr
  obtain ⟨⟨held, m⟩, q₃, hheld, hr⟩ := run_bind_eq_ok hr
  obtain ⟨exprs, q₄, hexprs, hr⟩ := run_bind_eq_ok hr
  cases hr
  have hvalue := Progress.Makes.lowered hs he hlower
  obtain ⟨ts, hheld, hdraws⟩ := stabilize_held q.IsFree hheld
  obtain ⟨p', us, htakes, hparts⟩ := p.flatten_takesApart hs p.boundNames hp hexprs
  have hmakes := (hvalue.append hdraws).append hparts
  rw [List.nil_append, List.append_nil] at hmakes
  have hfree : ∀ t ∈ ts ++ us, q.IsFree t := hmakes.draws.isFree
  refine ⟨value, p', ts, us, held, m, exprs, ⟨_, _, hlower⟩, hheld, htakes, hfree,
    fun w kept store hlocal hkeeps hkept => ?_⟩
  have hw : Ambience w s (ts ++ us) kept := ⟨hlocal, hkeeps.world, hs.sparing_mono hfree⟩
  have hspares : Spares (ts ++ us) (value.visits ++ p'.visits) := fun v hv =>
    ⟨fun x hx hmem => (hmakes.spares x.name (hfree _ hmem) (.inr (.inl hmem)) v hv).mentions x hx
      rfl, fun _ _ => trivial, fun _ _ => trivial⟩
  obtain ⟨hspares, hspares'⟩ := (covers_append _ _).mp hspares
  refine Simulates.agreesBut (fun name hname => (hkept name hname).1) fun K hK hnamed => ?_
  have hvacant : Vacant (ts ++ us) K (ts ++ us) := ⟨hmakes.draws.supply.nodup,
    List.Subset.refl _, fun p hp => (hkept p.1 (hnamed p hp)).2⟩
  have hlist := eval_ofList_append_singleton w (held ++ exprs) m m
  rw [evalAll_append, bind_assoc] at hlist
  rw [if_pos rfl, hlist]
  refine simulates_held hheld hvacant.left (fun x hx hreusable => hK _ (hkeeps.reuses x hx hreusable))
    (.eval hw hspares hkeeps.value) fun K₁ v hK₁ hm => ?_
  have hall := simulates_takePart hw htakes (x := eval w m) (g := fun _ => pure v)
    (fun name hname => (hK name hname).imp fun _ hv => hK₁.subset hv) (hvacant.right hK₁) hspares'
    hkeeps.part hm fun K₂ _ hK₂ _ => .of_matches (hm.same.mono hK₂.subset)
  simpa [takePart] using hall

end

/-- A pattern that is taken apart reads, at each level, from the value that the level's source had,
and an assignment whose value is used has the value that its right side had, where nothing writes to
the variables that are used again. -/
theorem takes_value (s : Setting) (p : Pattern) (q : Progress) :
    (∀ {bound : List String} {depth : Nat} {value : Expr} {exprs : List Expr} {q' : Progress},
      q.Knows s (p.visits ++ value.visits) →
      (p.flatten s bound depth value).run q = .ok (exprs, q') →
      ∃ p' ts, TakesApart s bound (.pattern p) (.pattern p') value exprs [] ts ∧
        (∀ t ∈ ts, q.IsFree t) ∧ ∀ {σ : Type} (w : World σ) (kept : List String) (store : Store σ),
          w.Local ts → isSpread value = false → Undisturbed w bound kept p' value →
          (∀ name ∈ kept, (store.vars name).isSome = true ∧ name ∉ ts) →
          Run.AgreesBut ts store (evalAll w exprs) (take w s (asWritten w) p' (eval w value))) ∧
    ∀ {e e' : Expr} {q' : Progress}, p.isDestructuring = true → s.hasExportedLeaf p = true →
      q.Knows s (p.visits ++ e.visits) →
      ((Expr.assign .plain p e).lower s true).run q = .ok (e', q') →
      ∃ value p' ts us held m exprs, Lowers s e value ∧ Held p.boundNames value held m ts ∧
        TakesApart s p.boundNames (.pattern p) (.pattern p') m exprs [] us ∧
        (∀ t ∈ ts ++ us, q.IsFree t) ∧
        ∀ {σ : Type} (w : World σ) (kept : List String) (store : Store σ), w.Local (ts ++ us) →
          Undisturbed w p.boundNames kept p' value →
          (∀ name ∈ kept, (store.vars name).isSome = true ∧ name ∉ ts ++ us) →
          Run.AgreesBut (ts ++ us) store (eval w e') (do
            let v ← eval w value
            take w s (asWritten w) p' (pure v)
            return v) :=
  ⟨flatten_takes, lower_assign_takes⟩

/-! ## A world of paths -/

/-- A value is told by the path that leads to it; nothing stands under `a`. -/
def paths : World Unit where
  referenceError := .string "ReferenceError"
  targetError := .string "SyntaxError"
  numberText := id
  isCallable _ := false
  getProperty owner key :=
    if key = .string "a" then return .undefined
    else return .string (owner.text?.getD "" ++ "." ++ key.text?.getD "")
  putProperty _ _ _ := return
  call _ _ _ := return .undefined
  array _ := return .undefined
  unary _ _ := return .undefined
  binary _ _ _ := return .undefined
  other _ := return .undefined

theorem paths_local (ts : List String) : paths.Local ts where
  getProperty _ _ := .ite (.pure trivial) (.pure trivial)
  putProperty _ _ _ := .pure trivial
  call _ _ _ := .pure trivial
  array _ := .pure trivial
  unary _ _ := .pure trivial
  binary _ _ _ := .pure trivial
  other _ _ := .pure trivial

theorem paths_keeps (kept : List String) : paths.Keeps kept where
  getProperty _ key := by
    by_cases h : key = .string "a" <;> simp only [paths, h, if_true, if_false] <;> exact .pure _
  putProperty _ _ _ := .pure _
  call _ _ _ := .pure _
  array _ := .pure _
  binary _ _ _ := .pure _

/-- `{ a = fallback, b }` -/
def pairWith (fallback : Expr) : Pattern :=
  .object [.shorthand ⟨.numbered 0, "a"⟩ (some fallback), .shorthand ⟨.numbered 1, "b"⟩ none] none

/-- `export var { a = fallback, b } = o;` -/
def pairFile (fallback : Expr) : SourceFile where
  id := .numbered 10
  name := "m.ts"
  statements := [.var { isExported := true }
    ⟨.var, [⟨pairWith fallback, some (.ident ⟨.numbered 2, "o"⟩)⟩]⟩]

/-- Each variable holds a path of its own. -/
def rooted : Store Unit := ⟨fun name => some (.string name), ()⟩

theorem lowers_literal {s : Setting} {v : Literal} {e : Expr} (h : Lowers s (.literal v) e) :
    e = .literal v := by
  obtain ⟨q, q', hr⟩ := h
  obtain ⟨-, q₁, hr, -⟩ := run_deeper_eq_ok hr
  cases hr
  rfl

theorem lowers_ident {s : Setting} {x : Ident} {e : Expr} (h : Lowers s (.ident x) e) :
    e = s.read x := by
  obtain ⟨q, q', hr⟩ := h
  obtain ⟨-, q₁, hr, -⟩ := run_deeper_eq_ok hr
  cases hr
  rfl

/-- Nothing in `{ a = 1, b }` writes to `o`. -/
theorem undisturbed_pairWith {s : Setting} {p' : Pattern} {m : Expr} {exprs : List Expr}
    {us : List String}
    (h : TakesApart s ["a", "b"] (.pattern (pairWith (.ofNumber "1"))) (.pattern p') m exprs [] us) :
    Undisturbed paths ["a", "b"] ["o"] p' (.ident ⟨.numbered 2, "o"⟩) := by
  obtain rfl : p' = pairWith (.ofNumber "1") := by
    cases h with | object hheld hps hrest =>
    cases hrest
    cases hps with | properties hfirst hps =>
    cases hps with | properties hsecond hps =>
    cases hps
    cases hfirst with | shorthand _ hfallback =>
    cases hfallback with | some _ hlowers =>
    cases hsecond with | shorthand _ hnone =>
    cases hnone
    rw [lowers_literal hlowers]
    rfl
  refine ⟨paths_keeps _, ⟨?_, ?_, fun e he => by cases he⟩, .read _ _, ?_⟩
  · exact List.forall_mem_cons.mpr ⟨by simp [LeafKeeps], List.forall_mem_singleton.mpr
      (by simp [LeafKeeps])⟩
  · exact List.forall_mem_singleton.mpr (.pure _)
  · rintro _ ⟨⟩ -
    exact List.mem_singleton_self _

/-- What a pattern reads does not depend on what it has assigned. -/
theorem takes_value_pairWith :
    let made := Setting.ofFile {} (.ofFile (pairFile (.ofNumber "1"))) (pairFile (.ofNumber "1"))
    let p := pairWith (.ofNumber "1")
    let value : Expr := .ident ⟨.numbered 2, "o"⟩
    let q : Progress := { hoisting := made.2 }
    q.Knows made.1 (p.visits ++ value.visits) ∧
      (∃ exprs q' p' ts, (p.flatten made.1 ["a", "b"] 0 value).run q = .ok (exprs, q') ∧
        Run.AgreesBut ts rooted (evalAll paths exprs)
          (take paths made.1 (asWritten paths) p' (eval paths value))) ∧
      ∃ e' q' p' ts, ((Expr.assign .plain p value).lower made.1 true).run q = .ok (e', q') ∧
        Run.AgreesBut ts rooted (eval paths e') (do
          let v ← eval paths value
          take paths made.1 (asWritten paths) p' (pure v)
          return v) := by
  intro made p value q
  have hknows : q.Knows made.1 (p.visits ++ value.visits) :=
    ⟨by decide +kernel, by decide +kernel, fun _ _ h => (by cases h), by decide +kernel⟩
  have hkept : ∀ {ts : List String}, (∀ t ∈ ts, q.IsFree t) →
      ∀ name ∈ ["o"], (rooted.vars name).isSome = true ∧ name ∉ ts := by
    intro ts hfree name hname
    obtain rfl := List.mem_singleton.mp hname
    exact ⟨rfl, fun hmem => Progress.not_isFree (by decide +kernel) (hfree _ hmem)⟩
  refine ⟨hknows, ?_, ?_⟩
  · obtain ⟨exprs, q', hr⟩ : ∃ exprs q', (p.flatten made.1 ["a", "b"] 0 value).run q =
        .ok (exprs, q') := ⟨_, _, rfl⟩
    obtain ⟨p', ts, htakes, hfree, hall⟩ := (takes_value made.1 p q).1 hknows hr
    exact ⟨exprs, q', p', ts, hr, hall paths ["o"] rooted (paths_local ts) rfl
      (undisturbed_pairWith htakes) (hkept hfree)⟩
  · obtain ⟨e', q', hr⟩ : ∃ e' q', ((Expr.assign .plain p value).lower made.1 true).run q =
        .ok (e', q') := ⟨_, _, rfl⟩
    obtain ⟨value', p', ts, us, held, m, exprs, hlowers, -, htakes, hfree, hall⟩ :=
      (takes_value made.1 p q).2 rfl rfl hknows hr
    have hvalue : value' = value := lowers_ident hlowers
    subst hvalue
    exact ⟨e', q', p', ts ++ us, hr, hall paths ["o"] rooted (paths_local _)
      (undisturbed_pairWith htakes) (hkept hfree)⟩

/-- `o = 1` -/
def reassigns : Expr := .assign .plain (.ident ⟨.numbered 3, "o"⟩) (.ofNumber "1")

/-- A default assigns the variable that the pattern reads from, and what is read after it is read
from the new value. -/
theorem fallback_changes_value :
    let made := Setting.ofFile {} (.ofFile (pairFile reassigns)) (pairFile reassigns)
    let q : Progress := { hoisting := made.2 }
    let value : Expr := .ident ⟨.numbered 2, "o"⟩
    ∃ exprs q', ((pairWith reassigns).flatten made.1 ["a", "b"] 0 value).run q = .ok (exprs, q') ∧
      ((evalAll paths exprs).outcome rooted).2.vars "b" = some (.string "1.b") ∧
      ((take paths made.1 (asWritten paths) (pairWith reassigns) (eval paths value)).outcome
        rooted).2.vars "b" = some (.string "o.b") :=
  ⟨_, _, rfl, rfl, rfl⟩

end RegisterForm.Dynamic
