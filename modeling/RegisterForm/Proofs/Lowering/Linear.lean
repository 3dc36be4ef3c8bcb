import Mathlib.Algebra.Order.Group.Multiset
import Mathlib.Tactic.Abel
import RegisterForm.Proofs.Lowering.Execute
import RegisterForm.Proofs.Lowering.Yields
/-!
# Patterns evaluate what they are taken apart from once

A pattern that is taken apart becomes a list of assignments. Their values are built from the value
that is taken apart, from the keys and defaults of the pattern, and from reads of properties, each
of them used once. Only a variable that the pattern cannot assign is used as often as it is
needed. A pattern for the elements of an array that holds a hole and nothing else reads nothing,
and is left aside here.
-/
namespace RegisterForm
open Lowering

/-! ## Evaluations -/

/-- What may have an effect when a pattern is taken apart. -/
inductive Evaluation where
  /-- A lowered expression of the source. -/
  | source (e : Expr)
  | property (name : String)
  /-- A property under a computed key. -/
  | computed
  /-- The properties that are left over. -/
  | rest
  /-- The elements from an index on. -/
  | slice (index : Nat)

/-- Whether an expression is a variable that a pattern with some bound names cannot assign. -/
def Expr.isReusable (bound : List String) (e : Expr) : Bool :=
  e.ident?.any fun x => x.id.isSynthetic || !bound.contains x.name

/-- What evaluating a lowered expression of the source costs: a variable that cannot be assigned
is free. -/
def Expr.cost (bound : List String) (e : Expr) : Multiset Evaluation :=
  if e.isReusable bound then 0 else {.source e}

/-- A key among those that are left out of a rest: a text, or a variable made a key. -/
def IsFreeKey (bound : List String) (key : Expr) : Prop :=
  (∃ text, key = .ofString text) ∨ ∃ e, e.isReusable bound = true ∧ key = propertyKey e

/-- The values that are built while a pattern is taken apart, with the evaluations in them. -/
inductive Built (bound : List String) : Expr → Multiset Evaluation → Prop
  | expr (e) : Built bound e (e.cost bound)
  | dot {owner name u} : Built bound owner u →
      Built bound (owner.dot name) ({.property name} + u)
  | string {owner name u} : Built bound owner u →
      Built bound (owner.lookup (.ofString name)) ({.property name} + u)
  | number {owner source u} : Built bound owner u →
      Built bound (owner.lookup (.ofNumber source)) ({.property source} + u)
  | computed {owner key u v} : Built bound owner u → Built bound key v →
      Built bound (owner.lookup key) ({.computed} + (u + v))
  | orFallback {held fallback} : held.isReusable bound = true →
      Built bound (orFallback held fallback) {.source fallback}
  | rest {value keys u} : Built bound value u → (∀ key ∈ keys, IsFreeKey bound key) →
      Built bound (restCall value keys) ({.rest} + u)
  | slice {value index u} : Built bound value u →
      Built bound (restSlice value index) ({.slice index} + u)

/-- An assignment that takes part of a pattern, with the evaluations in it. -/
inductive Taken (s : Setting) (bound : List String) : Expr → Multiset Evaluation → Prop
  | hold {temporary value u} : Built bound value u → Taken s bound (.assignName temporary value) u
  | bind {x value u} : Built bound value u → Taken s bound (s.bindingAssignment x value) u
  | store {target value u} : Built bound value u →
      Taken s bound (.assignTo (.expr target) value) ({.source target} + u)

inductive AllTaken (s : Setting) (bound : List String) : List Expr → Multiset Evaluation → Prop
  | nil : AllTaken s bound [] 0
  | cons {e es u v} : Taken s bound e u → AllTaken s bound es v →
      AllTaken s bound (e :: es) (u + v)

/-! ## What a pattern asks for -/

/-- What is evaluated when a pattern is taken apart, as the source has it. -/
inductive Demand where
  /-- A computed key. -/
  | key (e : Expr)
  /-- A default, or an expression that is assigned to. -/
  | value (e : Expr)
  | read (evaluation : Evaluation)

def Key.demands : Key → List Demand
  | .name text | .string text => [.read (.property text)]
  | .number source => [.read (.property source)]
  | .computed e => [.key e, .read .computed]

def fallbackDemands (fallback : Option Expr) : List Demand := fallback.toList.map .value

mutual

/-- A pattern asks for one read of a property for each of its parts, and for its keys, its defaults
and the expressions that it assigns to. -/
def Pattern.demands : Pattern → List Demand
  | .ident _ => []
  | .expr e => [.value e]
  | .object properties rest => propertiesDemands properties ++ restDemands .rest rest
  | .array elements rest => slotsDemands 0 elements ++ restDemands (.slice elements.length) rest

def restDemands (read : Evaluation) : Option Pattern → List Demand
  | none => []
  | some p => .read read :: p.demands

def PatternProperty.demands : PatternProperty → List Demand
  | .keyed key target fallback => key.demands ++ fallbackDemands fallback ++ target.demands
  | .shorthand x fallback => .read (.property x.name) :: fallbackDemands fallback

def propertiesDemands : List PatternProperty → List Demand
  | [] => []
  | p :: ps => p.demands ++ propertiesDemands ps

def PatternElement.demands : PatternElement → List Demand
  | ⟨target, fallback⟩ => fallbackDemands fallback ++ target.demands

def slotDemands (index : Nat) : Option PatternElement → List Demand
  | none => []
  | some e => .read (.property (toString index)) :: e.demands

/-- Elements from an index on; a hole asks for nothing. -/
def slotsDemands (index : Nat) : List (Option PatternElement) → List Demand
  | [] => []
  | e :: es => slotDemands index e ++ slotsDemands (index + 1) es

end

mutual

/-- Whether the pattern or one in it takes the elements of an array by a hole alone. -/
def Pattern.hasLoneHole : Pattern → Bool
  | .array [none] none => true
  | .array elements rest => slotsHaveLoneHole elements || restHasLoneHole rest
  | .object properties rest => propertiesHaveLoneHole properties || restHasLoneHole rest
  | .ident _ | .expr _ => false

def restHasLoneHole : Option Pattern → Bool
  | none => false
  | some p => p.hasLoneHole

def PatternProperty.hasLoneHole : PatternProperty → Bool
  | .keyed _ target _ => target.hasLoneHole
  | .shorthand _ _ => false

def propertiesHaveLoneHole : List PatternProperty → Bool
  | [] => false
  | p :: ps => p.hasLoneHole || propertiesHaveLoneHole ps

def PatternElement.hasLoneHole : PatternElement → Bool
  | ⟨target, _⟩ => target.hasLoneHole

def slotHasLoneHole : Option PatternElement → Bool
  | none => false
  | some e => e.hasLoneHole

def slotsHaveLoneHole : List (Option PatternElement) → Bool
  | [] => false
  | e :: es => slotHasLoneHole e || slotsHaveLoneHole es

end

/-- What lowering makes of an expression, from some progress on. -/
def Lowers (s : Setting) (e e' : Expr) : Prop := ∃ p p', (e.lower s true).run p = .ok (e', p')

/-- One demand, and the evaluations that meet it: one for each, unless it is a key that lowers to a
variable that cannot be assigned. -/
inductive Demand.IsMet (s : Setting) (bound : List String) : Demand → Multiset Evaluation → Prop
  | key {e e'} : Lowers s e e' → IsMet s bound (.key e) (e'.cost bound)
  | value {e e'} : Lowers s e e' → IsMet s bound (.value e) {.source e'}
  | read {evaluation} : IsMet s bound (.read evaluation) {evaluation}

inductive AreMet (s : Setting) (bound : List String) : List Demand → Multiset Evaluation → Prop
  | nil : AreMet s bound [] 0
  | cons {d ds u v} : d.IsMet s bound u → AreMet s bound ds v → AreMet s bound (d :: ds) (u + v)

/-! ## Composition -/

section Composition
variable {s : Setting} {bound : List String} {es es' : List Expr} {ds ds' : List Demand}
  {u v u' : Multiset Evaluation}

theorem AllTaken.append (h : AllTaken s bound es u) (h' : AllTaken s bound es' v) :
    AllTaken s bound (es ++ es') (u + v) := by
  induction h with
  | nil => rwa [List.nil_append, zero_add]
  | cons he _ ih =>
    rw [add_assoc]
    exact .cons he ih

theorem AllTaken.single {e : Expr} (h : Taken s bound e u) : AllTaken s bound [e] u := by
  have hsingle := AllTaken.cons h .nil
  rwa [add_zero] at hsingle

theorem AreMet.append (h : AreMet s bound ds u) (h' : AreMet s bound ds' v) :
    AreMet s bound (ds ++ ds') (u + v) := by
  induction h with
  | nil => rwa [List.nil_append, zero_add]
  | cons hd _ ih =>
    rw [add_assoc]
    exact .cons hd ih

theorem AreMet.single {d : Demand} (h : d.IsMet s bound u) : AreMet s bound [d] u := by
  have hsingle := AreMet.cons h .nil
  rwa [add_zero] at hsingle

/-- Assignments that use a value with evaluations `u` and meet some demands besides. -/
def Meets (s : Setting) (bound : List String) (ds : List Demand) (u : Multiset Evaluation)
    (es : List Expr) : Prop :=
  ∃ v, AllTaken s bound es (u + v) ∧ AreMet s bound ds v

/-- Assignments and a value that is used from then on. -/
def Holds (s : Setting) (bound : List String) (ds : List Demand) (u : Multiset Evaluation)
    (es : List Expr) (value : Expr) : Prop :=
  ∃ a b v, AllTaken s bound es a ∧ Built bound value b ∧ AreMet s bound ds v ∧ a + b = u + v

theorem Meets.nil : Meets s bound [] 0 [] := ⟨0, .nil, .nil⟩

theorem Meets.append (h : Meets s bound ds u es) (h' : Meets s bound ds' u' es') :
    Meets s bound (ds ++ ds') (u + u') (es ++ es') := by
  obtain ⟨v, hes, hds⟩ := h
  obtain ⟨v', hes', hds'⟩ := h'
  refine ⟨v + v', ?_, hds.append hds'⟩
  have heq : u + u' + (v + v') = u + v + (u' + v') := by abel
  rw [heq]
  exact hes.append hes'

theorem Meets.single {e : Expr} (h : Taken s bound e u) : Meets s bound [] u [e] :=
  ⟨0, by rw [add_zero]; exact .single h, .nil⟩

/-- What is done with a value that is held is done with all that was given. -/
theorem Meets.after {a b : Multiset Evaluation} (hes : AllTaken s bound es a)
    (hds : AreMet s bound ds v) (heq : a + b = u + v) (h : Meets s bound ds' b es') :
    Meets s bound (ds ++ ds') u (es ++ es') := by
  obtain ⟨v', hes', hds'⟩ := h
  refine ⟨v + v', ?_, hds.append hds'⟩
  have hsum : u + (v + v') = a + (b + v') := by
    rw [← add_assoc, ← heq, add_assoc]
  rw [hsum]
  exact hes.append hes'

/-- What was given is spent in part on assignments before. -/
theorem Meets.held {a b : Multiset Evaluation} (hes : AllTaken s bound es a) (heq : a + b = u)
    (h : Meets s bound ds b es') : Meets s bound ds u (es ++ es') :=
  .after hes .nil (by rwa [add_zero]) h

/-- A read of what was given is asked for. -/
theorem Meets.read {evaluation : Evaluation} (h : Meets s bound ds ({evaluation} + u) es) :
    Meets s bound (.read evaluation :: ds) u es := by
  obtain ⟨v, hes, hds⟩ := h
  refine ⟨{evaluation} + v, ?_, .cons .read hds⟩
  have heq : u + ({evaluation} + v) = {evaluation} + u + v := by abel
  rwa [heq]

end Composition

/-! ## Single steps -/

section Steps
variable {s : Setting} {bound : List String} {value : Expr} {u : Multiset Evaluation}

/-- A variable that can be used again costs nothing. -/
theorem Built.of_isReusable (h : value.isReusable bound = true) : Built bound value 0 := by
  have hexpr : Built bound value (value.cost bound) := .expr value
  rwa [Expr.cost, if_pos h] at hexpr

theorem Built.eq_zero (h : Built bound value u) (hvalue : value.isReusable bound = true) : u = 0 := by
  cases h with
  | expr => exact if_pos hvalue
  | _ => cases hvalue

theorem lower_lowers (e : Expr) : Yields Any (e.lower s true) (Lowers s e) :=
  fun p _ p' hr => ⟨trivial, p, p', hr⟩

theorem isReusable_ofName (name : String) : (Expr.ofName name).isReusable bound = true := rfl

theorem stabilize_takes (hvalue : Built bound value u) :
    Yields Any (stabilize bound value) fun r =>
      AllTaken s bound r.1 u ∧ r.2.isReusable bound = true := by
  unfold stabilize
  refine .ite (fun hreusable => .pure ⟨?_, hreusable⟩) fun _ => ?_
  · rw [hvalue.eq_zero hreusable]
    exact .nil
  · exact (yields_any _).bind fun temporary _ => .pure ⟨.single (.hold hvalue), isReusable_ofName _⟩

/-- A value is held for as many uses as there are, unless it has one use alone. -/
theorem stabilizeUnlessOne_takes {count uses : Nat} (huses : count = 1 → uses = 1)
    (hvalue : Built bound value u) : Yields Any (stabilizeUnlessOne count bound value) fun r =>
      ∃ a b, AllTaken s bound r.1 a ∧ Built bound r.2 b ∧ a + uses • b = u := by
  unfold stabilizeUnlessOne
  refine .ite (fun hone => .pure ⟨0, u, .nil, hvalue, ?_⟩) fun _ => ?_
  · rw [huses hone, one_nsmul, zero_add]
  · refine (stabilize_takes hvalue).mono fun r hr => ⟨u, 0, hr.1, .of_isReusable hr.2, ?_⟩
    rw [nsmul_zero, add_zero]

theorem flattenFallback_holds (fallback : Option Expr) (hvalue : Built bound value u) :
    Yields Any (flattenFallback s bound fallback value) fun r =>
      Holds s bound (fallbackDemands fallback) u r.1 r.2 := by
  cases fallback with
  | none =>
    exact .pure ⟨0, u, 0, .nil, hvalue, .nil, by rw [zero_add, add_zero]⟩
  | some fallback =>
    refine (stabilize_takes (s := s) hvalue).bind fun r hr => ?_
    refine (lower_lowers fallback).bind fun e he => .pure ?_
    exact ⟨u, _, _, hr.1, .orFallback hr.2, .single (.value he), rfl⟩

theorem Key.flatten_holds (key : Key) (hasRest : Bool) (hvalue : Built bound value u) :
    Yields Any (key.flatten s bound hasRest value) fun r =>
      Holds s bound key.demands u r.1 r.2.1 ∧ (hasRest = true → IsFreeKey bound r.2.2) := by
  have hread : ∀ {access : Expr} {name : String}, Built bound access ({.property name} + u) →
      Holds s bound [.read (.property name)] u [] access := fun h =>
    ⟨0, _, _, .nil, h, .single .read, by abel⟩
  cases key with
  | name text =>
    exact .pure ⟨hread (.dot hvalue), fun _ => .inl ⟨text, rfl⟩⟩
  | string text =>
    refine .pure ⟨hread ?_, fun _ => .inl ⟨text, rfl⟩⟩
    split
    · exact .dot hvalue
    · exact .string hvalue
  | number source =>
    exact .pure ⟨hread (.number hvalue), fun _ => .inl ⟨source, rfl⟩⟩
  | computed e =>
    refine (lower_lowers e).bind fun key hkey => ?_
    have hdemands : AreMet s bound (Key.computed e).demands (key.cost bound + {.computed}) :=
      .cons (.key hkey) (.single .read)
    refine .ite (fun _ => ?_) fun hnone => ?_
    · refine (stabilize_takes (s := s) (.expr key)).bind fun r hr => .pure ?_
      refine ⟨⟨_, _, _, hr.1, .computed hvalue (.of_isReusable hr.2), hdemands, ?_⟩, fun _ =>
        .inr ⟨r.2, hr.2, rfl⟩⟩
      rw [add_zero]
      abel
    · refine .pure ⟨⟨0, _, _, .nil, .computed hvalue (.expr key), hdemands, by abel⟩, fun h => ?_⟩
      exact absurd h hnone

end Steps

/-! ## Patterns -/

/-- How many elements are no holes. -/
def slotCount (elements : List (Option PatternElement)) : Nat := (elements.filter Option.isSome).length

/-- An array pattern that uses its value once, if it is not a hole alone. -/
theorem uses_of_count {elements : List (Option PatternElement)} {rest : Option Pattern}
    (h : (Pattern.array elements rest).hasLoneHole = false)
    (hcount : elements.length + rest.toList.length = 1) :
    slotCount elements + rest.toList.length = 1 := by
  match elements, rest with
  | [none], none => cases h
  | [some _], none => rfl
  | [], some _ => rfl
  | _ :: _ :: _, _ =>
    simp only [List.length_cons] at hcount
    omega
  | _ :: _, some _ => simp at hcount
  | [], none => cases hcount

theorem parts_of_hasLoneHole {elements : List (Option PatternElement)} {rest : Option Pattern}
    (h : (Pattern.array elements rest).hasLoneHole = false) :
    slotsHaveLoneHole elements = false ∧ restHasLoneHole rest = false := by
  unfold Pattern.hasLoneHole at h
  split at h <;> simp_all

section Patterns
variable {s : Setting} {bound : List String}

mutual

theorem Pattern.flatten_meets (depth : Nat) : ∀ (p : Pattern), p.hasLoneHole = false →
    ∀ {value u}, Built bound value u →
      Yields Any (p.flatten s bound depth value) (Meets s bound p.demands u)
  | .ident x, _, value, u, hvalue => by
    exact (yields_any _).bind fun _ _ => .pure (.single (.bind hvalue))
  | .expr e, _, value, u, hvalue => by
    refine (yields_any _).bind fun _ _ => (lower_lowers e).bind fun target htarget => .pure ?_
    refine ⟨{.source target}, .single ?_, .single (.value htarget)⟩
    rw [add_comm]
    exact .store hvalue
  | .object properties rest, h, value, u, hvalue => by
    have h := Bool.or_eq_false_iff.mp h
    refine (yields_any _).bind fun _ _ => ?_
    refine (stabilizeUnlessOne_takes (s := s) id hvalue).bind fun r hr => ?_
    obtain ⟨held, value'⟩ := r
    obtain ⟨a, b, hheld, hvalue', heq⟩ := hr
    refine (flattenProperties_meets (depth + 1) rest.isSome properties h.1 hvalue').bind
      fun r hr => ?_
    obtain ⟨exprs, keys⟩ := r
    obtain ⟨hexprs, hkeys⟩ := hr
    have hread : rest.isSome = true → Built bound (restCall value' keys) ({.rest} + b) :=
      fun hsome => .rest hvalue' (hkeys hsome)
    have hrest := flattenRest_meets (depth + 1) .rest rest h.2 hread
    have hall : ∀ remaining, Meets s bound (restDemands .rest rest) (rest.toList.length • b) remaining →
        Meets s bound (Pattern.object properties rest).demands u (held ++ exprs ++ remaining) := by
      intro remaining hremaining
      have hparts := hexprs.append hremaining
      rw [← add_nsmul] at hparts
      rw [List.append_assoc]
      exact hparts.held hheld heq
    refine .ite (fun _ => yields_requireRest.bind fun _ _ => ?_) fun _ => ?_
    · exact hrest.bind fun remaining h => .pure (hall remaining h)
    · exact hrest.bind fun remaining h => .pure (hall remaining h)
  | .array elements rest, h, value, u, hvalue => by
    obtain ⟨helements, hrest⟩ := parts_of_hasLoneHole h
    refine (yields_any _).bind fun _ _ => ?_
    refine (stabilizeUnlessOne_takes (s := s) (uses_of_count h) hvalue).bind fun r hr => ?_
    obtain ⟨held, value'⟩ := r
    obtain ⟨a, b, hheld, hvalue', heq⟩ := hr
    refine (flattenSlots_meets (depth + 1) 0 elements helements hvalue').bind fun exprs hexprs => ?_
    refine (flattenRest_meets (depth + 1) (.slice elements.length) rest hrest
      fun _ => .slice hvalue').bind fun remaining hremaining => .pure ?_
    have hall := hexprs.append hremaining
    rw [← add_nsmul] at hall
    rw [List.append_assoc]
    exact hall.held hheld heq
termination_by structural p => p

theorem flattenRest_meets (depth : Nat) (read : Evaluation) : ∀ (rest : Option Pattern),
    restHasLoneHole rest = false →
    ∀ {value u}, (rest.isSome = true → Built bound value ({read} + u)) →
      Yields Any (flattenRest s bound depth rest value)
        (Meets s bound (restDemands read rest) (rest.toList.length • u))
  | none, _, value, u, _ => by
    rw [Option.toList_none, List.length_nil, zero_nsmul]
    exact .pure .nil
  | some p, h, value, u, hvalue => by
    rw [Option.toList_some, List.length_singleton, one_nsmul]
    exact (p.flatten_meets depth h (hvalue rfl)).mono fun out hout => hout.read
termination_by structural p => p

theorem PatternProperty.flatten_meets (depth : Nat) (hasRest : Bool) : ∀ (p : PatternProperty),
    p.hasLoneHole = false → ∀ {value u}, Built bound value u →
      Yields Any (p.flatten s bound depth hasRest value) fun r =>
        Meets s bound p.demands u r.1 ∧ (hasRest = true → IsFreeKey bound r.2)
  | .keyed key target fallback, h, value, u, hvalue => by
    refine (key.flatten_holds (s := s) hasRest hvalue).bind fun r hr => ?_
    obtain ⟨held, access, excluded⟩ := r
    obtain ⟨⟨a, b, v, hheld, haccess, hkey, heq⟩, hexcluded⟩ := hr
    refine (flattenFallback_holds (s := s) fallback haccess).bind fun r hr => ?_
    obtain ⟨before, value'⟩ := r
    obtain ⟨a', b', v', hbefore, hvalue', hfallback, heq'⟩ := hr
    refine (target.flatten_meets depth h hvalue').bind fun exprs hexprs => .pure ⟨?_, hexcluded⟩
    rw [PatternProperty.demands, List.append_assoc, List.append_assoc]
    exact .after hheld hkey heq (.after hbefore hfallback heq' hexprs)
  | .shorthand x fallback, _, value, u, hvalue => by
    refine (flattenFallback_holds (s := s) fallback (.dot hvalue)).bind fun r hr => ?_
    obtain ⟨before, value'⟩ := r
    obtain ⟨a, b, v, hbefore, hvalue', hfallback, heq⟩ := hr
    refine (yields_any _).bind fun _ _ => .pure ⟨?_, fun _ => .inl ⟨x.name, rfl⟩⟩
    have hbind := Meets.after hbefore hfallback heq (.single (.bind (x := x) hvalue'))
    rw [List.append_nil] at hbind
    exact hbind.read
termination_by structural p => p

theorem flattenProperties_meets (depth : Nat) (hasRest : Bool) : ∀ (ps : List PatternProperty),
    propertiesHaveLoneHole ps = false → ∀ {value u}, Built bound value u →
      Yields Any (flattenProperties s bound depth hasRest ps value) fun r =>
        Meets s bound (propertiesDemands ps) (ps.length • u) r.1
          ∧ (hasRest = true → ∀ key ∈ r.2, IsFreeKey bound key)
  | [], _, value, u, hvalue => by
    exact .pure ⟨by rw [List.length_nil, zero_nsmul]; exact .nil, fun _ => by simp⟩
  | p :: ps, h, value, u, hvalue => by
    have h := Bool.or_eq_false_iff.mp h
    refine (p.flatten_meets depth hasRest h.1 hvalue).bind fun r hr => ?_
    obtain ⟨exprs, key⟩ := r
    refine (flattenProperties_meets depth hasRest ps h.2 hvalue).bind fun r hrs => .pure ?_
    obtain ⟨more, keys⟩ := r
    refine ⟨?_, fun hsome => List.forall_mem_cons.mpr ⟨hr.2 hsome, hrs.2 hsome⟩⟩
    rw [List.length_cons, succ_nsmul']
    exact hr.1.append hrs.1
termination_by structural p => p

theorem PatternElement.flatten_meets (depth : Nat) : ∀ (e : PatternElement),
    e.hasLoneHole = false → ∀ {value u}, Built bound value u →
      Yields Any (e.flatten s bound depth value) (Meets s bound e.demands u)
  | ⟨target, fallback⟩, h, value, u, hvalue => by
    refine (flattenFallback_holds (s := s) fallback hvalue).bind fun r hr => ?_
    obtain ⟨before, value'⟩ := r
    obtain ⟨a, b, v, hbefore, hvalue', hfallback, heq⟩ := hr
    exact (target.flatten_meets depth h hvalue').bind fun exprs hexprs =>
      .pure (.after hbefore hfallback heq hexprs)
termination_by structural p => p

theorem flattenSlot_meets (depth index : Nat) : ∀ (e : Option PatternElement),
    slotHasLoneHole e = false → ∀ {value u}, Built bound value u →
      Yields Any (flattenSlot s bound depth e (value.lookup (.ofNumber (toString index))))
        (Meets s bound (slotDemands index e) (slotCount [e] • u))
  | none, _, value, u, _ => by
    exact .pure (by rw [slotCount]; simpa using .nil)
  | some e, h, value, u, hvalue => by
    refine (e.flatten_meets depth h (.number hvalue)).mono fun out hout => ?_
    have hone : slotCount [some e] = 1 := rfl
    rw [hone, one_nsmul]
    exact hout.read
termination_by structural p => p

theorem flattenSlots_meets (depth index : Nat) : ∀ (es : List (Option PatternElement)),
    slotsHaveLoneHole es = false → ∀ {value u}, Built bound value u →
      Yields Any (flattenSlots s bound depth index es value)
        (Meets s bound (slotsDemands index es) (slotCount es • u))
  | [], _, value, u, hvalue => by
    exact .pure (by rw [slotCount]; simpa using .nil)
  | e :: es, h, value, u, hvalue => by
    have h := Bool.or_eq_false_iff.mp h
    refine (flattenSlot_meets depth index e h.1 hvalue).bind fun exprs hexprs => ?_
    refine (flattenSlots_meets depth (index + 1) es h.2 hvalue).bind fun more hmore => .pure ?_
    have hcount : slotCount (e :: es) = slotCount [e] + slotCount es := by
      cases e <;> simp [slotCount, Nat.add_comm]
    rw [hcount, add_nsmul]
    exact hexprs.append hmore
termination_by structural p => p

end

end Patterns

/-! ## Declarations and assignments -/

/-- What an assignment to a pattern has become: the assignments that take the pattern apart, and
at their end the value of the right side where it is used, held in a variable. -/
def Pattern.TakesApart (s : Setting) (p : Pattern) (e : Expr) (isUsed : Bool) (e' : Expr) : Prop :=
  ∃ value held out, Lowers s e value ∧
    Meets s p.boundNames p.demands (value.cost p.boundNames) out ∧
    (isUsed = true → held.isReusable p.boundNames = true) ∧
    e' = (Expr.ofList (out ++ if isUsed then [held] else [])).getD held

section Whole
variable {s : Setting} {p : Pattern} {e e' : Expr} {q q' : Progress} {out : List Expr}

/-- The assignments of a declaration use what its initialiser lowers to. -/
theorem Declarator.hoisted_meets (hp : p.hasLoneHole = false)
    (h : ((Declarator.mk p (some e)).hoisted s).run q = .ok (out, q')) :
    ∃ value, Lowers s e value ∧
      Meets s p.boundNames p.demands (value.cost p.boundNames) out := by
  rw [Declarator.hoisted] at h
  obtain ⟨_, _, _, h⟩ := run_bind_eq_ok h
  obtain ⟨value, q₁, hvalue, h⟩ := run_bind_eq_ok h
  exact ⟨value, ⟨_, _, hvalue⟩, (p.flatten_meets 0 hp (.expr value) h).2⟩

theorem Expr.lower_assign_takesApart {isUsed : Bool} (hp : p.hasLoneHole = false)
    (hpattern : p.isDestructuring = true) (hexported : s.hasExportedLeaf p = true)
    (h : ((Expr.assign .plain p e).lower s isUsed).run q = .ok (e', q')) :
    p.TakesApart s e isUsed e' := by
  obtain ⟨-, q₁, h, -⟩ := run_deeper_eq_ok h
  dsimp only at h
  rw [hpattern, hexported, if_pos (by rfl)] at h
  obtain ⟨value, q₂, hvalue, h⟩ := run_bind_eq_ok h
  have hfinish : ∀ {held : List Expr} {value' : Expr} {a b : Multiset Evaluation} {q₃ q₄ : Progress},
      AllTaken s p.boundNames held a → Built p.boundNames value' b →
      a + b = value.cost p.boundNames → (isUsed = true → value'.isReusable p.boundNames = true) →
      (do let exprs ← p.flatten s p.boundNames 0 value'
          return (Expr.ofList (held ++ exprs ++ if isUsed then [value'] else [])).getD value' :
        Lowering Expr).run q₃ = .ok (e', q₄) → p.TakesApart s e isUsed e' := by
    intro held value' a b q₃ q₄ hassigned hvalue' heq hreusable h
    obtain ⟨exprs, q₄, hexprs, h⟩ := run_bind_eq_ok h
    cases h
    exact ⟨value, value', held ++ exprs, ⟨_, _, hvalue⟩,
      .held hassigned heq (p.flatten_meets 0 hp hvalue' hexprs).2, hreusable, rfl⟩
  cases isUsed with
  | true =>
    obtain ⟨r, q₃, hr, h⟩ := run_bind_eq_ok h
    have hheld := (stabilize_takes (s := s) (.expr value) hr).2
    exact hfinish hheld.1 (.of_isReusable hheld.2) (add_zero _) (fun _ => hheld.2) h
  | false =>
    exact hfinish .nil (.expr value) (zero_add _) (fun h => absurd h Bool.false_ne_true) h

end Whole

/-- `[a, , ...[b = c()]]` -/
def holeThenDefault : Pattern :=
  .array [some ⟨.ident ⟨.numbered 0, "a"⟩, none⟩, none]
    (some (.array [some ⟨.ident ⟨.numbered 1, "b"⟩,
      some (.call (.ident ⟨.numbered 2, "c"⟩) [] false)⟩] none))

/-- `var [a, b] = x;` -/
def pairOfVariable : SourceFile where
  id := .numbered 10
  name := "m.ts"
  statements := [.var {} ⟨.var, [⟨.array [some ⟨.ident ⟨.numbered 0, "a"⟩, none⟩,
    some ⟨.ident ⟨.numbered 1, "b"⟩, none⟩] none, some (.ident ⟨.numbered 2, "x"⟩)⟩]⟩]

end RegisterForm
