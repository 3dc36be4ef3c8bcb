import RegisterForm.Proofs.Depth.Touched
import RegisterForm.Proofs.Lowering.Yields
import RegisterForm.Proofs.Resolve.Follows
/-!
# Lowering and binding go equally deep

Binding stops at the deepest level without a word, and lowering fails there. A step of lowering and
the steps that bind the same part are compared at the same depth: where lowering gets through,
binding has resolved what lowering touches.
-/
namespace RegisterForm
open BindStep

namespace BindStep

@[simp] theorem resolved_refer (specs : List ExportSpecifier) :
    resolved (specs.map .refer) = specs.map (·.source) := by
  induction specs with
  | nil => rfl
  | cons spec specs ih => simp [BindStep.resolved?, ih]

end BindStep

/-- The steps resolve the identifier, or it is known to be exported without them. -/
def Setting.Settles (s : Setting) (σ : List BindStep) (u : Touch) : Prop :=
  u.isCounted = true → u.ident ∈ resolved σ ∨ s.exportNames u.ident ≠ []

namespace Lowering

/-- If the step succeeds at depth `d`, it ends there, and all that it touches is settled. -/
def Reaches {α : Type} (s : Setting) (σ : List BindStep) (d : Nat) (x : Lowering α)
    (us : List Touch) : Prop :=
  ∀ ⦃p a p'⦄, p.depth = d → x.run p = .ok (a, p') → p'.depth = d ∧ ∀ u ∈ us, s.Settles σ u

namespace Reaches
variable {α β : Type} {s : Setting} {σ τ : List BindStep} {d : Nat} {x : Lowering α}
  {f : α → Lowering β} {us vs : List Touch}

theorem mono (h : Reaches s σ d x us) (hσ : resolved σ ⊆ resolved τ) (hus : vs ⊆ us) :
    Reaches s τ d x vs := by
  intro p a p' hp hr
  obtain ⟨hdepth, hsettled⟩ := h hp hr
  exact ⟨hdepth, fun u hu hc => (hsettled u (hus hu) hc).imp_left fun hx => hσ hx⟩

/-- A step that keeps the depth and reads nothing. -/
theorem of_depth (h : ∀ {p a p'}, x.run p = .ok (a, p') → p'.depth = p.depth) :
    Reaches s [] d x [] := by
  intro p a p' hp hr
  exact ⟨(h hr).trans hp, List.forall_mem_nil _⟩

theorem of_resolved (h : Reaches s σ d x []) (hus : ∀ u ∈ us, u.ident ∈ resolved σ) :
    Reaches s σ d x us := by
  intro p a p' hp hr
  exact ⟨(h hp hr).1, fun u hu _ => .inl (hus u hu)⟩

theorem pure (a : α) : Reaches s [] d (pure a : Lowering α) [] :=
  of_depth fun hr => by
    cases hr
    rfl

theorem throw (e : LowerError) : Reaches s σ d (throw e : Lowering α) us := by
  intro p a p' _ hr
  cases hr

theorem ite {c : Prop} [Decidable c] {y : Lowering α} (hx : c → Reaches s σ d x us)
    (hy : ¬c → Reaches s σ d y us) : Reaches s σ d (if c then x else y) us := by
  by_cases h : c
  · rw [if_pos h]
    exact hx h
  · rw [if_neg h]
    exact hy h

/-- Binding may read what lowering leaves unread. -/
theorem unread (h : Reaches s [] d x []) : Reaches s σ d x [] :=
  h.mono (List.nil_subset _) (List.Subset.refl _)

theorem left (h : Reaches s σ d x us) : Reaches s (σ ++ τ) d x us :=
  h.mono (by simp) (List.Subset.refl _)

/-- It only matters what is resolved. -/
theorem of_eq (h : Reaches s σ d x us) (hσ : resolved σ = resolved τ) : Reaches s τ d x us :=
  h.mono (hσ ▸ List.Subset.refl _) (List.Subset.refl _)

/-- The same condition decides what is touched. -/
theorem iteBoth {c : Prop} [Decidable c] {y : Lowering α} (hx : c → Reaches s σ d x us)
    (hy : ¬c → Reaches s σ d y vs) :
    Reaches s σ d (if c then x else y) (if c then us else vs) := by
  by_cases h : c
  · rw [if_pos h, if_pos h]
    exact hx h
  · rw [if_neg h, if_neg h]
    exact hy h

/-- A part that is left unread unless some condition holds. -/
theorem readIf {c : Prop} [Decidable c] (hread : c → Reaches s σ d x us)
    (hunread : ¬c → Reaches s [] d x []) : Reaches s σ d x (if c then us else []) := by
  by_cases h : c
  · rw [if_pos h]
    exact hread h
  · rw [if_neg h]
    exact (hunread h).unread

/-- Of the first step's result something may be known. -/
theorem bindOf {Q : α → Prop} (hx : Reaches s σ d x us) (hQ : Yields Any x Q)
    (hf : ∀ a, Q a → Reaches s τ d (f a) vs) : Reaches s (σ ++ τ) d (x >>= f) (us ++ vs) := by
  intro p b p' hp hr
  obtain ⟨a, q, hfirst, hrest⟩ := run_bind_eq_ok hr
  obtain ⟨hq, hus⟩ := hx hp hfirst
  obtain ⟨hp', hvs⟩ := hf a (hQ hfirst).2 hq hrest
  refine ⟨hp', fun u hu hc => ?_⟩
  rw [resolved_append, List.mem_append]
  rcases List.mem_append.mp hu with hu | hu
  · exact (hus u hu hc).imp_left .inl
  · exact (hvs u hu hc).imp_left .inr

theorem bind (hx : Reaches s σ d x us) (hf : ∀ a, Reaches s τ d (f a) vs) :
    Reaches s (σ ++ τ) d (x >>= f) (us ++ vs) :=
  hx.bindOf (yields_any x) fun a _ => hf a

/-- Lowering takes two parts in the one order, and binding in the other. -/
theorem bindSwap (hx : Reaches s σ d x us) (hf : ∀ a, Reaches s τ d (f a) vs) :
    Reaches s (τ ++ σ) d (x >>= f) (vs ++ us) :=
  (hx.bind hf).mono (fun y hy => by simpa [or_comm] using hy) fun u hu => by
    simpa [or_comm] using hu

/-- What follows the step reads nothing. -/
theorem andThen (hx : Reaches s σ d x us) (hf : ∀ a, Reaches s [] d (f a) []) :
    Reaches s σ d (x >>= f) us :=
  (hx.bind hf).mono (by simp) (by simp)

theorem map {g : α → β} (hx : Reaches s σ d x us) :
    Reaches s σ d (x >>= fun a => Pure.pure (g a)) us :=
  hx.andThen fun _ => pure _

/-- An identifier that lowering touches and binding resolves. -/
theorem reference (y : Ident) (hx : Reaches s σ d x us) :
    Reaches s (.resolve y :: σ) d x ({ ident := y } :: us) := by
  intro p a p' hp hr
  obtain ⟨hdepth, hsettled⟩ := hx hp hr
  refine ⟨hdepth, fun u hu hc => ?_⟩
  rcases List.mem_cons.mp hu with rfl | hu
  · exact .inl (List.mem_cons_self ..)
  · exact (hsettled u hu hc).imp_left fun h => List.mem_cons_of_mem _ h

/-- Both sides of steps are put together in the other way. -/
theorem assoc {ρ : List BindStep} (h : Reaches s (σ ++ (τ ++ ρ)) d x us) :
    Reaches s (σ ++ τ ++ ρ) d x us :=
  h.of_eq (by simp)

/-! ## Scopes -/

theorem inScope {kind : ScopeKind} {bs : List Binding} (h : Reaches s σ d x us) :
    Reaches s (inside kind (declaring bs ++ σ)) d x us :=
  h.of_eq (by simp)

theorem inScopeIf {wanted : Bool} {kind : ScopeKind} {bs : List Binding} (h : Reaches s σ d x us) :
    Reaches s (insideIf wanted kind (declaring bs ++ σ)) d x us :=
  h.of_eq (by simp)

theorem body {bs : List Binding} {stmts : List Stmt} (h : Reaches s σ d x us) :
    Reaches s (inside .function (declaring bs ++ declaringBody false stmts ++ σ)) d x us :=
  h.of_eq (by simp)

theorem staticBlock {stmts : List Stmt} (h : Reaches s σ d x us) :
    Reaches s (inside .function (declaringBody false stmts ++ σ)) d x us :=
  h.of_eq (by simp)

theorem named {isExpression : Bool} {name : Option Ident} {roles : Roles}
    (h : Reaches s σ d x us) : Reaches s (insideName isExpression name roles σ) d x us :=
  h.of_eq (by simp)

/-- A clause's parameter is bound before the names of the body are declared. -/
theorem handler {kind : ScopeKind} {bs cs : List Binding} (h : Reaches s (σ ++ τ) d x us) :
    Reaches s (inside kind (declaring bs ++ σ ++ declaring cs ++ τ)) d x us :=
  h.of_eq (by simp)

/-! ## Levels -/

/-- Both count one level more. -/
theorem deeper {σ : Nat → List BindStep}
    (h : d < maxTreeDepth → Reaches s (σ (d + 1)) (d + 1) x us) :
    Reaches s (nested d σ) d (Lowering.deeper s x) us := by
  intro p a p' hp hr
  obtain ⟨hlt, q, hx, rfl⟩ := run_deeper_eq_ok hr
  subst hp
  obtain ⟨hdepth, hsettled⟩ := h hlt rfl hx
  refine ⟨congrArg (· - 1) hdepth, ?_⟩
  rwa [nested, if_pos hlt]

/-! ## Steps that read nothing -/

theorem hoist (step : Hoisting → Hoisting) : Reaches s [] d (Lowering.hoist step) [] :=
  of_depth fun hr => by
    cases hr
    rfl

theorem hoistGet (step : Hoisting → α × Hoisting) : Reaches s [] d (Lowering.hoistGet step) [] :=
  of_depth fun hr => by
    cases hr
    rfl

theorem addExportedName (name : String) : Reaches s [] d (Lowering.addExportedName name) [] :=
  of_depth fun hr => by
    cases hr
    dsimp only
    split <;> rfl

theorem addExportedNames : ∀ names : List String,
    Reaches s [] d (Lowering.addExportedNames names) []
  | [] => pure _
  | name :: names => (addExportedName name).bind fun _ => addExportedNames names

theorem addFunctionExport (call : Expr) : Reaches s [] d (Lowering.addFunctionExport call) [] :=
  of_depth fun hr => by
    cases hr
    rfl

theorem requireRest : Reaches s [] d Lowering.requireRest [] :=
  of_depth fun hr => by
    cases hr
    rfl

theorem guardPatternDepth (depth : Nat) : Reaches s [] d (Lowering.guardPatternDepth s depth) [] := by
  unfold Lowering.guardPatternDepth
  exact .ite (fun _ => .pure ()) fun _ => .throw _

theorem stabilize (bound : List String) (value : Expr) :
    Reaches s [] d (Lowering.stabilize bound value) [] := by
  unfold Lowering.stabilize
  exact .ite (fun _ => .pure _) fun _ => (hoistGet _).map

theorem stabilizeUnlessOne (count : Nat) (bound : List String) (value : Expr) :
    Reaches s [] d (RegisterForm.stabilizeUnlessOne count bound value) [] := by
  unfold RegisterForm.stabilizeUnlessOne
  exact .ite (fun _ => .pure _) fun _ => stabilize bound value

theorem inFunction (h : Reaches s σ d x us) : Reaches s σ d (Lowering.inFunction x) us := by
  have hrest : ∀ a : α, Reaches s [] d
      (do return (a, (← Lowering.hoistGet (·.pop)).statements) : Lowering (α × List Stmt)) [] :=
    fun a => (hoistGet _).map
  exact (hoist (·.push)).bind fun _ => h.andThen hrest

/-! ## Declarations of the module -/

theorem exportCall (modifiers : Modifiers) (name : String) :
    Reaches s [] d (Lowering.exportCall s modifiers name) [] := by
  unfold Lowering.exportCall
  exact .ite (fun _ => (addExportedName _).map) fun _ => .pure _

theorem hoistFunction (modifiers : Modifiers) (f : Func) :
    Reaches s [] d (Lowering.hoistFunction s modifiers f) [] := by
  unfold Lowering.hoistFunction
  have hrest : ∀ x : Ident, Reaches s [] d (do
      if modifiers.isExported then
        Lowering.addFunctionExport (← Lowering.exportCall s modifiers x.name)
      Lowering.hoist (·.addFunction (.function {} { f with name := some x }))) [] := by
    intro x
    refine .ite (fun _ => ?_) fun _ => hoist _
    exact (exportCall modifiers _).bind fun call => (addFunctionExport call).bind fun _ => hoist _
  cases f.name with
  | some x => exact hrest x
  | none =>
    have hname : Reaches s [] d (Ident.synthetic <$> Lowering.hoistGet (·.unique "default")) [] :=
      (hoistGet _).map
    exact hname.bind hrest

theorem hoistClassName (name : Option Ident) :
    Reaches s [] d (Lowering.hoistClassName name) [] := by
  have hadd : ∀ name : String, Reaches s [] d (do
      Lowering.hoist (·.addVariable name)
      return name) [] := fun _ => (hoist _).map
  unfold Lowering.hoistClassName
  cases name with
  | some x => exact hadd x.name
  | none => exact (hoistGet _).bind hadd

theorem classAssignment (modifiers : Modifiers) (name : String) (c : Class) :
    Reaches s [] d (Lowering.classAssignment s modifiers name c) [] := by
  unfold Lowering.classAssignment
  exact .ite (fun _ => (exportCall modifiers name).map) fun _ => .pure _

theorem exportSpecifier (spec : ExportSpecifier) :
    Reaches s [] d (Lowering.exportSpecifier s spec) [] := by
  unfold Lowering.exportSpecifier
  refine .ite (fun _ => .pure _) fun _ => (addExportedName _).bind fun _ => ?_
  refine .ite (fun _ => .pure _) fun _ => .ite (fun _ => ?_) fun _ => .pure _
  exact (addFunctionExport _).bind fun _ => .pure _

theorem exportSpecifiers : ∀ specs : List ExportSpecifier,
    Reaches s [] d (Lowering.exportSpecifiers s specs) []
  | [] => .pure _
  | spec :: specs => (exportSpecifier spec).bind fun _ => (exportSpecifiers specs).map

/-- A local export clause touches the names that binding resolves there. -/
theorem exportClause (specs : List ExportSpecifier) :
    Reaches s (specs.map .refer) d (Lowering.exportSpecifiers s specs)
      (specs.map fun spec => { ident := spec.source }) := by
  refine (exportSpecifiers specs).unread.of_resolved fun u hu => ?_
  obtain ⟨spec, hspec, rfl⟩ := List.mem_map.mp hu
  rw [resolved_refer]
  exact List.mem_map_of_mem hspec

/-! ## Loops -/

/-- The block of an enumerating loop: without calls it is a level for both; with calls it is one
for binding only. -/
theorem blockBody {exports : List Stmt} {body : Lowering (List Stmt)} {bs : List Binding}
    {σ : Nat → List BindStep} (h : ∀ d, Reaches s (σ d) d body us) :
    Reaches s (nested d fun d => inside .block (declaring bs ++ σ d)) d
      (RegisterForm.blockBody s exports body) (Touch.inBlock exports us) := by
  unfold RegisterForm.blockBody Touch.inBlock
  by_cases hempty : exports.isEmpty
  · rw [if_pos hempty, if_pos hempty]
    exact .deeper fun _ => (h (d + 1)).inScope.map
  · rw [if_neg hempty, if_neg hempty]
    intro p a p' hp hr
    refine ⟨((h d).map hp hr).1, fun u hu hc => ?_⟩
    obtain ⟨v, -, rfl⟩ := List.mem_map.mp hu
    cases hc

/-- The head of an enumerating loop is lowered first, and bound in the scope of the body. -/
theorem enumeration {γ δ : Type} {head : Lowering α} {object : Lowering β} {body : α → Lowering γ}
    {make : α → β → γ → δ} {Q : α → Prop} {ρ : List BindStep} {ws : List Touch} {wanted : Bool}
    {bs : List Binding} (hhead : Reaches s σ d head us) (hQ : Yields Any head Q)
    (hobject : Reaches s τ d object vs) (hbody : ∀ a, Q a → Reaches s ρ d (body a) ws) :
    Reaches s (τ ++ insideIf wanted .block (declaring bs ++ (σ ++ ρ))) d
      (do
        let a ← head
        let b ← object
        return make a b (← body a)) (us ++ (vs ++ ws)) := by
  have hloop := hhead.bindOf hQ fun a ha => hobject.bind fun b =>
    (hbody a ha).map (g := make a b)
  refine hloop.mono (fun y hy => ?_) (List.Subset.refl _)
  simp only [resolved_append, resolved_insideIf, resolved_declaring, List.nil_append,
    List.mem_append] at hy ⊢
  tauto

end Reaches
end Lowering
end RegisterForm
