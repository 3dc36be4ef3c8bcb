import RegisterForm.Proofs.Lowering.Apart
import RegisterForm.Proofs.Lowering.Linear
/-!
# How patterns are taken apart

The assignments that a pattern is taken apart into, as a relation without the progress of lowering:
between a part of the pattern, the same part with its expressions lowered, the value that it takes,
the assignments, the keys that a rest leaves out, and the temporaries in the order in which they are
assigned. What lowering does to a pattern is such a taking apart, with temporaries that are new and
that no lowered expression mentions.
-/
namespace RegisterForm
open Lowering Vocabulary

/-! ## Values -/

/-- A value is held for more than one use: a variable that cannot be assigned is used again, and
any other value is assigned to a temporary. -/
inductive Held (bound : List String) : Expr → List Expr → Expr → List String → Prop
  | reused {value : Expr} (h : value.isReusable bound = true) : Held bound value [] value []
  | temporary {value : Expr} (t : String) (h : value.isReusable bound = false) :
    Held bound value [.assignName t value] (.ofName t) [t]

/-- A value with one use stays where it is. -/
inductive HeldUnlessOne (bound : List String) (count : Nat) :
    Expr → List Expr → Expr → List String → Prop
  | once {value : Expr} (h : count = 1) : HeldUnlessOne bound count value [] value []
  | held {value m : Expr} {held : List Expr} {ts : List String} (hcount : count ≠ 1)
    (h : Held bound value held m ts) : HeldUnlessOne bound count value held m ts

/-- A value with a default, which is lowered behind what holds the value. -/
inductive FallsBack (s : Setting) (bound : List String) :
    Option Expr → Option Expr → Expr → List Expr → Expr → List String → Prop
  | none {value : Expr} : FallsBack s bound none none value [] value []
  | some {fallback fallback' value m : Expr} {held : List Expr} {ts : List String}
    (h : Held bound value held m ts) (hfallback : Lowers s fallback fallback') :
    FallsBack s bound (some fallback) (some fallback') value held (orFallback m fallback') ts

/-- The read of a property, and the key that a rest leaves out for it. -/
inductive ReadsKey (s : Setting) (bound : List String) :
    Bool → Key → Key → Expr → List Expr → Expr → Expr → List String → Prop
  | name {hasRest : Bool} {value : Expr} (text : String) :
    ReadsKey s bound hasRest (.name text) (.name text) value [] (value.dot text) (.ofString text)
      []
  | string {hasRest : Bool} {value : Expr} (text : String) :
    ReadsKey s bound hasRest (.string text) (.string text) value []
      (if Text.isIdentifierName text then value.dot text else value.lookup (.ofString text))
      (.ofString text) []
  | number {hasRest : Bool} {value : Expr} (source : String) :
    ReadsKey s bound hasRest (.number source) (.number source) value []
      (value.lookup (.ofNumber source)) (.ofString source) []
  | computed {value e e' : Expr} (h : Lowers s e e') :
    ReadsKey s bound false (.computed e) (.computed e') value [] (value.lookup e') e' []
  | held {value e e' m : Expr} {held : List Expr} {ts : List String} (h : Lowers s e e')
    (hheld : Held bound e' held m ts) :
    ReadsKey s bound true (.computed e) (.computed e') value held (value.lookup m) (propertyKey m)
      ts

/-! ## Parts -/

/-- A pattern, or a part of one that is taken apart on its own. -/
inductive Part where
  | pattern (p : Pattern)
  | rest (p : Option Pattern)
  | property (hasRest : Bool) (p : PatternProperty)
  | properties (hasRest : Bool) (ps : List PatternProperty)
  | slot (e : Option PatternElement)
  /-- The elements from an index on. -/
  | slots (index : Nat) (es : List (Option PatternElement))

def Part.visits : Part → List Visit
  | .pattern p => p.visits
  | .rest p => patternVisits? p
  | .property _ p => p.visits
  | .properties _ ps => patternPropertiesVisits ps
  | .slot e => patternSlotVisits e
  | .slots _ es => patternSlotsVisits es

/-- A part takes a value. -/
inductive TakesApart (s : Setting) (bound : List String) :
    Part → Part → Expr → List Expr → List Expr → List String → Prop
  | ident (x : Ident) (value : Expr) :
    TakesApart s bound (.pattern (.ident x)) (.pattern (.ident x)) value
      [s.bindingAssignment x value] [] []
  | expr {e e' : Expr} (value : Expr) (h : Lowers s e e') :
    TakesApart s bound (.pattern (.expr e)) (.pattern (.expr e')) value
      [.assignTo (.expr e') value] [] []
  | object {ps ps' : List PatternProperty} {rest rest' : Option Pattern} {value m : Expr}
    {held exprs remaining keys : List Expr} {ts us vs : List String}
    (hheld : HeldUnlessOne bound (ps.length + rest.toList.length) value held m ts)
    (hps : TakesApart s bound (.properties rest.isSome ps) (.properties rest.isSome ps') m
      exprs keys us)
    (hrest : TakesApart s bound (.rest rest) (.rest rest') (restCall m keys) remaining [] vs) :
    TakesApart s bound (.pattern (.object ps rest)) (.pattern (.object ps' rest')) value
      (held ++ exprs ++ remaining) [] (ts ++ us ++ vs)
  | array {es es' : List (Option PatternElement)} {rest rest' : Option Pattern} {value m : Expr}
    {held exprs remaining : List Expr} {ts us vs : List String}
    (hheld : HeldUnlessOne bound (es.length + rest.toList.length) value held m ts)
    (hes : TakesApart s bound (.slots 0 es) (.slots 0 es') m exprs [] us)
    (hrest : TakesApart s bound (.rest rest) (.rest rest') (restSlice m es.length) remaining []
      vs) :
    TakesApart s bound (.pattern (.array es rest)) (.pattern (.array es' rest')) value
      (held ++ exprs ++ remaining) [] (ts ++ us ++ vs)
  | noRest (value : Expr) : TakesApart s bound (.rest none) (.rest none) value [] [] []
  | someRest {p p' : Pattern} {value : Expr} {exprs : List Expr} {ts : List String}
    (h : TakesApart s bound (.pattern p) (.pattern p') value exprs [] ts) :
    TakesApart s bound (.rest (some p)) (.rest (some p')) value exprs [] ts
  | keyed {hasRest : Bool} {key key' : Key} {target target' : Pattern}
    {fallback fallback' : Option Expr} {value access access' excluded : Expr}
    {held before exprs : List Expr} {ts us vs : List String}
    (hkey : ReadsKey s bound hasRest key key' value held access excluded ts)
    (hfallback : FallsBack s bound fallback fallback' access before access' us)
    (htarget : TakesApart s bound (.pattern target) (.pattern target') access' exprs [] vs) :
    TakesApart s bound (.property hasRest (.keyed key target fallback))
      (.property hasRest (.keyed key' target' fallback')) value (held ++ before ++ exprs)
      [excluded] (ts ++ us ++ vs)
  | shorthand {hasRest : Bool} {fallback fallback' : Option Expr} {value access : Expr}
    {before : List Expr} {ts : List String} (x : Ident)
    (hfallback : FallsBack s bound fallback fallback' (value.dot x.name) before access ts) :
    TakesApart s bound (.property hasRest (.shorthand x fallback))
      (.property hasRest (.shorthand x fallback')) value
      (before ++ [s.bindingAssignment x access]) [.ofString x.name] ts
  | noProperties {hasRest : Bool} (value : Expr) :
    TakesApart s bound (.properties hasRest []) (.properties hasRest []) value [] [] []
  | properties {hasRest : Bool} {p p' : PatternProperty} {ps ps' : List PatternProperty}
    {value : Expr} {exprs more keys keys' : List Expr} {ts us : List String}
    (hp : TakesApart s bound (.property hasRest p) (.property hasRest p') value exprs keys ts)
    (hps : TakesApart s bound (.properties hasRest ps) (.properties hasRest ps') value more keys'
      us) :
    TakesApart s bound (.properties hasRest (p :: ps)) (.properties hasRest (p' :: ps')) value
      (exprs ++ more) (keys ++ keys') (ts ++ us)
  | hole (value : Expr) : TakesApart s bound (.slot none) (.slot none) value [] [] []
  | element {target target' : Pattern} {fallback fallback' : Option Expr} {value access : Expr}
    {before exprs : List Expr} {ts us : List String}
    (hfallback : FallsBack s bound fallback fallback' value before access ts)
    (htarget : TakesApart s bound (.pattern target) (.pattern target') access exprs [] us) :
    TakesApart s bound (.slot (some ⟨target, fallback⟩)) (.slot (some ⟨target', fallback'⟩)) value
      (before ++ exprs) [] (ts ++ us)
  | noSlots (index : Nat) (value : Expr) :
    TakesApart s bound (.slots index []) (.slots index []) value [] [] []
  | slots {index : Nat} {e e' : Option PatternElement} {es es' : List (Option PatternElement)}
    {value : Expr} {exprs more : List Expr} {ts us : List String}
    (he : TakesApart s bound (.slot e) (.slot e') (value.lookup (.ofNumber (toString index)))
      exprs [] ts)
    (hes : TakesApart s bound (.slots (index + 1) es) (.slots (index + 1) es') value more [] us) :
    TakesApart s bound (.slots index (e :: es)) (.slots index (e' :: es')) value
      (exprs ++ more) [] (ts ++ us)

/-! ## Runs -/

theorem Vocabulary.admits_sparing_pattern {T : String → Prop} (p : Pattern) :
    (sparing T).Admits (.pattern p) := (admits_pattern p).mpr fun _ _ => trivial

section Steps
variable {s : Setting} {bound : List String} {p p' : Progress} {value : Expr}

theorem stabilize_held (free : String → Prop) {r : List Expr × Expr}
    (hr : (stabilize bound value).run p = .ok (r, p')) :
    ∃ ts, Held bound value r.1 r.2 ts ∧ p.Makes free ts [] p' := by
  unfold stabilize at hr
  split at hr
  · next hreusable =>
    cases hr
    exact ⟨[], .reused hreusable, .nothing free p⟩
  · next hreusable =>
    obtain ⟨t, q, ht, hr⟩ := run_bind_eq_ok hr
    cases ht
    cases hr
    exact ⟨_, .temporary _ (Bool.eq_false_of_not_eq_true hreusable), .temporary free p⟩

theorem stabilizeUnlessOne_held (free : String → Prop) {count : Nat} {r : List Expr × Expr}
    (hr : (stabilizeUnlessOne count bound value).run p = .ok (r, p')) :
    ∃ ts, HeldUnlessOne bound count value r.1 r.2 ts ∧ p.Makes free ts [] p' := by
  unfold stabilizeUnlessOne at hr
  split at hr
  · next hone =>
    cases hr
    exact ⟨[], .once hone, .nothing free p⟩
  · next hcount =>
    obtain ⟨ts, hheld, hmakes⟩ := stabilize_held free hr
    exact ⟨ts, .held hcount hheld, hmakes⟩

theorem run_of_guarded {depth : Nat} {α : Type} {f : Unit → Lowering α} {a : α}
    (hr : (guardPatternDepth s depth >>= f).run p = .ok (a, p')) : (f ()).run p = .ok (a, p') := by
  unfold guardPatternDepth at hr
  split at hr
  · exact hr
  · cases hr

variable {free : String → Prop} (hs : s.SpokenIn (sparing free))
include hs

theorem flattenFallback_fallsBack {fallback : Option Expr} {r : List Expr × Expr}
    (hfallback : (sparing free).Covers (exprVisits? fallback))
    (hr : (flattenFallback s bound fallback value).run p = .ok (r, p')) :
    ∃ fallback' ts, FallsBack s bound fallback fallback' value r.1 r.2 ts ∧
      p.Makes free ts (exprVisits? fallback') p' := by
  cases fallback with
  | none =>
    cases hr
    exact ⟨none, [], .none, .nothing free p⟩
  | some fallback =>
    obtain ⟨⟨held, m⟩, q, hheld, hr⟩ := run_bind_eq_ok hr
    obtain ⟨fallback', q', hlower, hr⟩ := run_bind_eq_ok hr
    cases hr
    obtain ⟨ts, hheld, hmakes⟩ := stabilize_held free hheld
    have hlowered := Progress.Makes.lowered hs hfallback hlower
    have hall := hmakes.append hlowered
    rw [List.append_nil, List.nil_append] at hall
    exact ⟨some fallback', ts, .some hheld ⟨_, _, hlower⟩, hall⟩

theorem Key.flatten_readsKey {key : Key} {hasRest : Bool} {r : List Expr × Expr × Expr}
    (hkey : (sparing free).Covers key.visits)
    (hr : (key.flatten s bound hasRest value).run p = .ok (r, p')) :
    ∃ key' ts, ReadsKey s bound hasRest key key' value r.1 r.2.1 r.2.2 ts ∧
      p.Makes free ts key'.visits p' := by
  cases key with
  | name text =>
    cases hr
    exact ⟨_, [], .name text, .source p hkey⟩
  | string text =>
    cases hr
    exact ⟨_, [], .string text, .source p hkey⟩
  | number source =>
    cases hr
    exact ⟨_, [], .number source, .source p hkey⟩
  | computed e =>
    obtain ⟨e', q, hlower, hr⟩ := run_bind_eq_ok hr
    have hlowered := Progress.Makes.lowered hs hkey hlower
    cases hasRest with
    | false =>
      cases hr
      exact ⟨.computed e', [], .computed ⟨_, _, hlower⟩, hlowered⟩
    | true =>
      obtain ⟨⟨held, m⟩, q', hheld, hr⟩ := run_bind_eq_ok hr
      cases hr
      obtain ⟨ts, hheld, hmakes⟩ := stabilize_held free hheld
      have hall := hlowered.append hmakes
      rw [List.append_nil, List.nil_append] at hall
      exact ⟨.computed e', ts, .held ⟨_, _, hlower⟩ hheld, hall⟩

end Steps

variable {s : Setting} {free : String → Prop} (hs : s.SpokenIn (sparing free))

-- Only the expressions of a pattern ask what the setting says.
set_option linter.unusedSectionVars false

include hs

mutual

theorem Pattern.flatten_takesApart (bound : List String) : (p : Pattern) →
    (sparing free).Covers p.visits →
    ∀ {depth : Nat} {value : Expr} {q q' : Progress} {exprs : List Expr},
    (p.flatten s bound depth value).run q = .ok (exprs, q') →
    ∃ p' ts, TakesApart s bound (.pattern p) (.pattern p') value exprs [] ts ∧
      q.Makes free ts p'.visits q'
  | .ident x, h, _, value, q, q', exprs, hr => by
    have hr := run_of_guarded hr
    cases hr
    exact ⟨.ident x, [], .ident x value, .source _ h⟩
  | .expr e, h, _, value, q, q', exprs, hr => by
    have hr := run_of_guarded hr
    obtain ⟨e', q₁, hlower, hr⟩ := run_bind_eq_ok hr
    cases hr
    have hlowered := Progress.Makes.lowered hs ((covers_exprPattern e).mp h) hlower
    exact ⟨.expr e', [], .expr value ⟨_, _, hlower⟩,
      hlowered.mono fun t => (covers_exprPattern e').mpr⟩
  | .object ps rest, h, depth, value, q, _, _, hr => by
    simp only [Pattern.visits, covers_cons, covers_append] at h
    have hr := run_of_guarded hr
    obtain ⟨⟨held, m⟩, q₁, hheld, hr⟩ := run_bind_eq_ok hr
    obtain ⟨⟨exprs, keys⟩, q₂, hps, hr⟩ := run_bind_eq_ok hr
    obtain ⟨ts, hheld, hmakes⟩ := stabilizeUnlessOne_held free hheld
    obtain ⟨ps', us, hps, hmakes'⟩ := flattenProperties_takesApart bound rest.isSome ps h.2.1 hps
    have htakes : ∀ {q₃ q₄ : Progress} {remaining : List Expr}, q₂.Makes free [] [] q₃ →
        (flattenRest s bound (depth + 1) rest (restCall m keys)).run q₃ = .ok (remaining, q₄) →
        ∃ p' ts, TakesApart s bound (.pattern (.object ps rest)) (.pattern p') value
          (held ++ exprs ++ remaining) [] ts ∧ q.Makes free ts p'.visits q₄ := by
      intro q₃ q₄ remaining hnoted hrest
      obtain ⟨rest', vs, hrest, hmakes''⟩ := flattenRest_takesApart bound rest h.2.2 hrest
      refine ⟨.object ps' rest', ts ++ us ++ vs, .object hheld hps hrest, ?_⟩
      refine ((hmakes.append hmakes').append (hnoted.append hmakes'')).mono fun t hvs => ?_
      exact (covers_cons _ _).mpr ⟨admits_sparing_pattern _, hvs⟩
    dsimp only at hr
    split at hr
    · obtain ⟨_, q₃, hnote, hrun⟩ := run_bind_eq_ok hr
      cases hnote
      obtain ⟨remaining, q₄, hrest, hfinal⟩ := run_bind_eq_ok hrun
      cases hfinal
      exact htakes (.noted free q₂) hrest
    · obtain ⟨remaining, q₄, hrest, hr⟩ := run_bind_eq_ok hr
      cases hr
      exact htakes (.nothing free q₂) hrest
  | .array es rest, h, _, _, _, _, _, hr => by
    simp only [Pattern.visits, covers_cons, covers_append] at h
    have hr := run_of_guarded hr
    obtain ⟨⟨held, m⟩, q₁, hheld, hr⟩ := run_bind_eq_ok hr
    obtain ⟨exprs, q₂, hes, hr⟩ := run_bind_eq_ok hr
    obtain ⟨remaining, q₃, hrest, hr⟩ := run_bind_eq_ok hr
    cases hr
    obtain ⟨ts, hheld, hmakes⟩ := stabilizeUnlessOne_held free hheld
    obtain ⟨es', us, hes, hmakes'⟩ := flattenSlots_takesApart bound es h.2.1 hes
    obtain ⟨rest', vs, hrest, hmakes''⟩ := flattenRest_takesApart bound rest h.2.2 hrest
    refine ⟨.array es' rest', ts ++ us ++ vs, .array hheld hes hrest, ?_⟩
    refine ((hmakes.append hmakes').append hmakes'').mono fun t hvs => ?_
    exact (covers_cons _ _).mpr ⟨admits_sparing_pattern _, hvs⟩
termination_by structural p => p

theorem flattenRest_takesApart (bound : List String) : (rest : Option Pattern) →
    (sparing free).Covers (patternVisits? rest) →
    ∀ {depth : Nat} {value : Expr} {q q' : Progress} {exprs : List Expr},
    (flattenRest s bound depth rest value).run q = .ok (exprs, q') →
    ∃ rest' ts, TakesApart s bound (.rest rest) (.rest rest') value exprs [] ts ∧
      q.Makes free ts (patternVisits? rest') q'
  | none, _, _, value, q, _, _, hr => by
    cases hr
    exact ⟨none, [], .noRest value, .nothing free q⟩
  | some p, h, _, _, _, _, _, hr => by
    obtain ⟨p', ts, hp, hmakes⟩ := p.flatten_takesApart bound h hr
    exact ⟨some p', ts, .someRest hp, hmakes⟩
termination_by structural rest => rest

theorem PatternProperty.flatten_takesApart (bound : List String) (hasRest : Bool) :
    (p : PatternProperty) → (sparing free).Covers p.visits →
    ∀ {depth : Nat} {value : Expr} {q q' : Progress} {r : List Expr × Expr},
    (p.flatten s bound depth hasRest value).run q = .ok (r, q') →
    ∃ p' ts, TakesApart s bound (.property hasRest p) (.property hasRest p') value r.1 [r.2] ts ∧
      q.Makes free ts p'.visits q'
  | .keyed key target fallback, h, _, _, _, _, _, hr => by
    simp only [PatternProperty.visits, covers_append] at h
    obtain ⟨⟨held, access, excluded⟩, q₁, hkey, hr⟩ := run_bind_eq_ok hr
    obtain ⟨⟨before, access'⟩, q₂, hfallback, hr⟩ := run_bind_eq_ok hr
    obtain ⟨exprs, q₃, htarget, hr⟩ := run_bind_eq_ok hr
    cases hr
    obtain ⟨key', ts, hkey, hmakes⟩ := Key.flatten_readsKey hs h.1.1 hkey
    obtain ⟨fallback', us, hfallback, hmakes'⟩ := flattenFallback_fallsBack hs h.2 hfallback
    obtain ⟨target', vs, htarget, hmakes''⟩ := target.flatten_takesApart bound h.1.2 htarget
    refine ⟨.keyed key' target' fallback', ts ++ us ++ vs, .keyed hkey hfallback htarget, ?_⟩
    refine ((hmakes.append hmakes').append hmakes'').mono fun t hvs => ?_
    simp only [covers_append] at hvs
    simp [PatternProperty.visits, hvs]
  | .shorthand x fallback, h, _, _, _, _, _, hr => by
    simp only [PatternProperty.visits, covers_cons, admits_ident] at h
    obtain ⟨⟨before, access⟩, q₁, hfallback, hr⟩ := run_bind_eq_ok hr
    have hr := run_of_guarded hr
    cases hr
    obtain ⟨fallback', ts, hfallback, hmakes⟩ := flattenFallback_fallsBack hs h.2 hfallback
    have hx : (sparing free).Covers [.ident x] := by simpa using h.1
    exact ⟨.shorthand x fallback', ts, .shorthand x hfallback,
      (Progress.Makes.source _ hx).append hmakes⟩
termination_by structural p => p

theorem flattenProperties_takesApart (bound : List String) (hasRest : Bool) :
    (ps : List PatternProperty) → (sparing free).Covers (patternPropertiesVisits ps) →
    ∀ {depth : Nat} {value : Expr} {q q' : Progress} {r : List Expr × List Expr},
    (flattenProperties s bound depth hasRest ps value).run q = .ok (r, q') →
    ∃ ps' ts, TakesApart s bound (.properties hasRest ps) (.properties hasRest ps') value r.1 r.2
      ts ∧ q.Makes free ts (patternPropertiesVisits ps') q'
  | [], _, _, value, q, _, _, hr => by
    cases hr
    exact ⟨[], [], .noProperties value, .nothing free q⟩
  | p :: ps, h, _, _, _, _, _, hr => by
    simp only [patternPropertiesVisits, covers_append] at h
    obtain ⟨⟨exprs, key⟩, q₁, hp, hr⟩ := run_bind_eq_ok hr
    obtain ⟨⟨more, keys⟩, q₂, hps, hr⟩ := run_bind_eq_ok hr
    cases hr
    obtain ⟨p', ts, hp, hmakes⟩ := p.flatten_takesApart bound hasRest h.1 hp
    obtain ⟨ps', us, hps, hmakes'⟩ := flattenProperties_takesApart bound hasRest ps h.2 hps
    exact ⟨p' :: ps', ts ++ us, .properties hp hps, hmakes.append hmakes'⟩
termination_by structural ps => ps

theorem PatternElement.flatten_takesApart (bound : List String) : (e : PatternElement) →
    (sparing free).Covers e.visits →
    ∀ {depth : Nat} {value : Expr} {q q' : Progress} {exprs : List Expr},
    (e.flatten s bound depth value).run q = .ok (exprs, q') →
    ∃ e' ts, TakesApart s bound (.slot (some e)) (.slot (some e')) value exprs [] ts ∧
      q.Makes free ts e'.visits q'
  | ⟨target, fallback⟩, h, _, _, _, _, _, hr => by
    simp only [PatternElement.visits, covers_append] at h
    obtain ⟨⟨before, access⟩, q₁, hfallback, hr⟩ := run_bind_eq_ok hr
    obtain ⟨exprs, q₂, htarget, hr⟩ := run_bind_eq_ok hr
    cases hr
    obtain ⟨fallback', ts, hfallback, hmakes⟩ := flattenFallback_fallsBack hs h.2 hfallback
    obtain ⟨target', us, htarget, hmakes'⟩ := target.flatten_takesApart bound h.1 htarget
    refine ⟨⟨target', fallback'⟩, ts ++ us, .element hfallback htarget, ?_⟩
    refine (hmakes.append hmakes').mono fun t hvs => ?_
    rw [covers_append] at hvs
    simp [PatternElement.visits, hvs]
termination_by structural e => e

theorem flattenSlot_takesApart (bound : List String) : (e : Option PatternElement) →
    (sparing free).Covers (patternSlotVisits e) →
    ∀ {depth : Nat} {value : Expr} {q q' : Progress} {exprs : List Expr},
    (flattenSlot s bound depth e value).run q = .ok (exprs, q') →
    ∃ e' ts, TakesApart s bound (.slot e) (.slot e') value exprs [] ts ∧
      q.Makes free ts (patternSlotVisits e') q'
  | none, _, _, value, q, _, _, hr => by
    cases hr
    exact ⟨none, [], .hole value, .nothing free q⟩
  | some e, h, _, _, _, _, _, hr => by
    obtain ⟨e', ts, he, hmakes⟩ := e.flatten_takesApart bound h hr
    exact ⟨some e', ts, he, hmakes⟩
termination_by structural e => e

theorem flattenSlots_takesApart (bound : List String) : (es : List (Option PatternElement)) →
    (sparing free).Covers (patternSlotsVisits es) →
    ∀ {index depth : Nat} {value : Expr} {q q' : Progress} {exprs : List Expr},
    (flattenSlots s bound depth index es value).run q = .ok (exprs, q') →
    ∃ es' ts, TakesApart s bound (.slots index es) (.slots index es') value exprs [] ts ∧
      q.Makes free ts (patternSlotsVisits es') q'
  | [], _, index, _, value, q, _, _, hr => by
    cases hr
    exact ⟨[], [], .noSlots index value, .nothing free q⟩
  | e :: es, h, _, _, _, _, _, _, hr => by
    simp only [patternSlotsVisits, covers_append] at h
    obtain ⟨exprs, q₁, he, hr⟩ := run_bind_eq_ok hr
    obtain ⟨more, q₂, hes, hr⟩ := run_bind_eq_ok hr
    cases hr
    obtain ⟨e', ts, he, hmakes⟩ := flattenSlot_takesApart bound e h.1 he
    obtain ⟨es', us, hes, hmakes'⟩ := flattenSlots_takesApart bound es h.2 hes
    exact ⟨e' :: es', ts ++ us, .slots he hes, hmakes.append hmakes'⟩
termination_by structural es => es

end
end RegisterForm
