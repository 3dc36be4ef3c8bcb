import RegisterForm.Lowering.Tree
import RegisterForm.Proofs.Lowering.Yields
/-!
# Patterns taken apart

A pattern that is taken apart leaves one assignment for each identifier that it binds, in
source order. Between them stand only temporaries and the assignments to other targets.
-/
namespace RegisterForm
open Lowering

/-- Assignments to the identifiers, in order, among assignments that publish nothing. -/
inductive Setting.Assigns (s : Setting) : List Ident → List Expr → Prop
  | nil : s.Assigns [] []
  | leaf {xs es} (x : Ident) (value : Expr) (rest : s.Assigns xs es) :
    s.Assigns (x :: xs) (s.bindingAssignment x value :: es)
  | temporary {xs es} (name : String) (value : Expr) (rest : s.Assigns xs es) :
    s.Assigns xs (.assignName name value :: es)
  | target {xs es} (target value : Expr) (rest : s.Assigns xs es) :
    s.Assigns xs (.assignTo (.expr target) value :: es)

variable {s : Setting}

theorem Setting.Assigns.append {xs ys : List Ident} {es fs : List Expr} (h : s.Assigns xs es)
    (h' : s.Assigns ys fs) : s.Assigns (xs ++ ys) (es ++ fs) := by
  induction h with
  | nil => exact h'
  | leaf x value _ ih => exact .leaf x value ih
  | temporary name value _ ih => exact .temporary name value ih
  | target target value _ ih => exact .target target value ih

theorem Setting.Assigns.single (s : Setting) (x : Ident) (value : Expr) :
    s.Assigns [x] [s.bindingAssignment x value] := .leaf x value .nil

/-- The assignment to one of the identifiers stands between those before and those after it. -/
theorem Setting.Assigns.split {xs ys : List Ident} {y : Ident} {es : List Expr}
    (h : s.Assigns (xs ++ y :: ys) es) : ∃ before value after,
      es = before ++ s.bindingAssignment y value :: after ∧ s.Assigns xs before ∧
        s.Assigns ys after := by
  generalize hzs : xs ++ y :: ys = zs at h
  induction h generalizing xs with
  | nil => simp at hzs
  | @leaf xs' es' x value rest ih =>
    cases xs with
    | nil =>
      obtain ⟨rfl, rfl⟩ := List.cons.inj hzs
      exact ⟨[], value, _, rfl, .nil, rest⟩
    | cons x' xs =>
      obtain ⟨rfl, htail⟩ := List.cons.inj hzs
      obtain ⟨before, v, after, rfl, hb, ha⟩ := ih htail
      exact ⟨_ :: before, v, after, rfl, .leaf x' value hb, ha⟩
  | temporary name value _ ih =>
    obtain ⟨before, v, after, rfl, hb, ha⟩ := ih hzs
    exact ⟨_ :: before, v, after, rfl, .temporary name value hb, ha⟩
  | target target value _ ih =>
    obtain ⟨before, v, after, rfl, hb, ha⟩ := ih hzs
    exact ⟨_ :: before, v, after, rfl, .target target value hb, ha⟩

theorem stabilize_assigns (s : Setting) (bound : List String) (value : Expr) :
    Yields Any (stabilize bound value) fun r => s.Assigns [] r.1 := by
  refine (yields_stabilize bound value).mono ?_
  rintro _ (rfl | ⟨temporary, rfl⟩)
  · exact .nil
  · exact .temporary temporary value .nil

theorem stabilizeUnlessOne_assigns (s : Setting) (count : Nat) (bound : List String)
    (value : Expr) :
    Yields Any (stabilizeUnlessOne count bound value) fun r => s.Assigns [] r.1 := by
  unfold stabilizeUnlessOne
  exact .ite (fun _ => .pure .nil) fun _ => stabilize_assigns s bound value

theorem flattenFallback_assigns (s : Setting) (bound : List String) (fallback : Option Expr)
    (value : Expr) : Yields Any (flattenFallback s bound fallback value) fun r => s.Assigns [] r.1 := by
  cases fallback with
  | none => exact .pure .nil
  | some e =>
    exact (stabilize_assigns s bound value).bind fun ⟨held, value⟩ h =>
      (yields_any _).bind fun _ _ => .pure h

theorem Key.flatten_assigns (bound : List String) (hasRest : Bool) (key : Key) (value : Expr) :
    Yields Any (key.flatten s bound hasRest value) fun r => s.Assigns [] r.1 := by
  cases key with
  | name text => exact .pure .nil
  | string text => exact .pure .nil
  | number source => exact .pure .nil
  | computed e =>
    refine (yields_any _).bind fun key _ => ?_
    exact .ite (fun _ => (stabilize_assigns s bound key).bind fun ⟨held, key⟩ h => .pure h)
      fun _ => .pure .nil

mutual

theorem Pattern.flatten_assigns (bound : List String) (depth : Nat) : (p : Pattern) →
    (value : Expr) → Yields Any (p.flatten s bound depth value) (s.Assigns p.boundIdents)
  | .ident x, value => by
    exact (yields_any _).bind fun _ _ => .pure (.single s x value)
  | .expr e, value => by
    exact (yields_any _).bind fun _ _ => (yields_any _).bind fun target _ =>
      .pure (.target target value .nil)
  | .object properties rest, value => by
    refine (yields_any _).bind fun _ _ => ?_
    refine (stabilizeUnlessOne_assigns s _ bound value).bind fun ⟨held, value⟩ hheld => ?_
    refine (flattenProperties_assigns bound _ rest.isSome properties value).bind
      fun ⟨exprs, keys⟩ hexprs => ?_
    have hrest : ∀ remaining, s.Assigns (restIdents rest) remaining →
        s.Assigns (Pattern.object properties rest).boundIdents (held ++ exprs ++ remaining) :=
      fun remaining h => (hheld.append hexprs).append h
    refine .ite (fun _ => (yields_any _).bind fun _ _ => ?_) fun _ => ?_
    · exact (flattenRest_assigns bound _ rest _).bind fun remaining h => .pure (hrest remaining h)
    · exact (flattenRest_assigns bound _ rest _).bind fun remaining h => .pure (hrest remaining h)
  | .array elements rest, value => by
    refine (yields_any _).bind fun _ _ => ?_
    refine (stabilizeUnlessOne_assigns s _ bound value).bind fun ⟨held, value⟩ hheld => ?_
    refine (flattenSlots_assigns bound _ 0 elements value).bind fun exprs hexprs => ?_
    refine (flattenRest_assigns bound _ rest _).bind fun remaining h => .pure ?_
    exact (hheld.append hexprs).append h
termination_by structural p => p

theorem flattenRest_assigns (bound : List String) (depth : Nat) : (rest : Option Pattern) →
    (value : Expr) → Yields Any (flattenRest s bound depth rest value) (s.Assigns (restIdents rest))
  | none, _ => .pure .nil
  | some p, value => p.flatten_assigns bound depth value
termination_by structural p => p

theorem PatternProperty.flatten_assigns (bound : List String) (depth : Nat) (hasRest : Bool) :
    (p : PatternProperty) → (value : Expr) →
      Yields Any (p.flatten s bound depth hasRest value) fun r => s.Assigns p.boundIdents r.1
  | .keyed key target fallback, value => by
    refine (key.flatten_assigns bound hasRest value).bind fun ⟨held, value, excluded⟩ hheld => ?_
    refine (flattenFallback_assigns s bound fallback value).bind fun ⟨before, value⟩ hbefore => ?_
    refine (target.flatten_assigns bound depth value).bind fun exprs hexprs => .pure ?_
    exact (hheld.append hbefore).append hexprs
  | .shorthand x fallback, value => by
    refine (flattenFallback_assigns s bound fallback _).bind fun ⟨before, value⟩ hbefore => ?_
    refine (yields_any _).bind fun _ _ => .pure ?_
    exact hbefore.append (.single s x value)
termination_by structural p => p

theorem flattenProperties_assigns (bound : List String) (depth : Nat) (hasRest : Bool) :
    (ps : List PatternProperty) → (value : Expr) →
      Yields Any (flattenProperties s bound depth hasRest ps value) fun r =>
        s.Assigns (propertyIdents ps) r.1
  | [], _ => .pure .nil
  | p :: ps, value => by
    refine (p.flatten_assigns bound depth hasRest value).bind fun ⟨exprs, key⟩ hexprs => ?_
    refine (flattenProperties_assigns bound depth hasRest ps value).bind
      fun ⟨more, keys⟩ hmore => .pure ?_
    exact hexprs.append hmore
termination_by structural p => p

theorem PatternElement.flatten_assigns (bound : List String) (depth : Nat) :
    (e : PatternElement) → (value : Expr) →
      Yields Any (e.flatten s bound depth value) (s.Assigns e.boundIdents)
  | ⟨target, fallback⟩, value => by
    refine (flattenFallback_assigns s bound fallback value).bind fun ⟨before, value⟩ hbefore => ?_
    refine (target.flatten_assigns bound depth value).bind fun exprs hexprs => .pure ?_
    exact hbefore.append hexprs
termination_by structural p => p

theorem flattenSlot_assigns (bound : List String) (depth : Nat) : (e : Option PatternElement) →
    (value : Expr) → Yields Any (flattenSlot s bound depth e value) (s.Assigns (slotIdents e))
  | none, _ => .pure .nil
  | some e, value => e.flatten_assigns bound depth value
termination_by structural p => p

theorem flattenSlots_assigns (bound : List String) (depth index : Nat) :
    (es : List (Option PatternElement)) → (value : Expr) →
      Yields Any (flattenSlots s bound depth index es value) (s.Assigns (elementIdents es))
  | [], _ => .pure .nil
  | e :: es, value => by
    refine (flattenSlot_assigns bound depth e _).bind fun exprs hexprs => ?_
    refine (flattenSlots_assigns bound depth (index + 1) es value).bind fun more hmore => .pure ?_
    exact hexprs.append hmore
termination_by structural p => p

end
end RegisterForm
