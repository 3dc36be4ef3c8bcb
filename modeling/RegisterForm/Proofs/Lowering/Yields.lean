import RegisterForm.Lowering.Monad
/-!
# What a lowering step yields

A statement about a step is one about all its successful runs: what they give and how they
change the progress. Such statements are put together along the steps.
-/
namespace RegisterForm.Lowering

/-- A relation between the progress before and after, kept by the steps that parts of a function
body take on their own. -/
class Keeping (R : Progress → Progress → Prop) : Prop where
  refl : ∀ p, R p p
  trans : ∀ {p p' p''}, R p p' → R p' p'' → R p p''
  depth : ∀ p depth, R p { p with depth }
  rest : ∀ p, R p { p with needsRest := true }
  temporary : ∀ p, R p { p with hoisting := p.hoisting.declareTemporary.2 }

/-- Nothing is said about the progress. -/
def Any (_ _ : Progress) : Prop := True

instance : Keeping Any := ⟨fun _ => trivial, fun _ _ => trivial, fun _ _ => trivial,
  fun _ => trivial, fun _ => trivial⟩

/-- What a successful run gives satisfies `Q`, and how it changes the progress satisfies `R`. -/
def Yields {α : Type} (R : Progress → Progress → Prop) (x : Lowering α) (Q : α → Prop) : Prop :=
  ∀ ⦃p a p'⦄, x.run p = .ok (a, p') → R p p' ∧ Q a

section Yields
variable {α β : Type} {R : Progress → Progress → Prop} {x : Lowering α} {f : α → Lowering β}
  {Q : α → Prop} {Q' : β → Prop}

/-- A run of two steps is a run of the first and one of the second. -/
theorem run_bind_eq_ok {p p' : Progress} {b : β} (h : (x >>= f).run p = .ok (b, p')) :
    ∃ a q, x.run p = .ok (a, q) ∧ (f a).run q = .ok (b, p') := by
  rw [StateT.run_bind] at h
  cases hx : x.run p with
  | error e => rw [hx] at h; cases h
  | ok r => exact ⟨r.1, r.2, rfl, by rw [hx] at h; exact h⟩

/-- A run of the first step is followed by a run of the second. -/
theorem run_bind_of_ok {p q : Progress} {a : α} (h : x.run p = .ok (a, q)) :
    (x >>= f).run p = (f a).run q := by
  rw [StateT.run_bind, h]
  rfl

/-- A step inside is run one level deeper, and the depth is then taken back. -/
theorem run_deeper_eq_ok {s : Setting} {p p' : Progress} {a : α}
    (h : (deeper s x).run p = .ok (a, p')) :
    p.depth < maxTreeDepth ∧ ∃ q, x.run { p with depth := p.depth + 1 } = .ok (a, q) ∧
      p' = { q with depth := q.depth - 1 } := by
  obtain ⟨q, q', hget, h⟩ := run_bind_eq_ok h
  cases hget
  split at h
  · next hlt =>
    obtain ⟨_, q₁, hmod, h⟩ := run_bind_eq_ok h
    cases hmod
    obtain ⟨b, q₂, hx, h⟩ := run_bind_eq_ok h
    obtain ⟨_, q₃, hmod, h⟩ := run_bind_eq_ok h
    cases hmod
    cases h
    exact ⟨hlt, q₂, hx, rfl⟩
  · cases h

theorem run_deeper_of_ok {s : Setting} {p q : Progress} {a : α} (hdepth : p.depth < maxTreeDepth)
    (h : x.run { p with depth := p.depth + 1 } = .ok (a, q)) :
    (deeper s x).run p = .ok (a, { q with depth := q.depth - 1 }) := by
  unfold Lowering.deeper
  rw [run_bind_of_ok (show (get : Lowering Progress).run p = .ok (p, p) from rfl), if_pos hdepth]
  rw [run_bind_of_ok (a := ()) (q := { p with depth := p.depth + 1 }) rfl, run_bind_of_ok h]
  rfl

/-- A function's parts are lowered with a collection of their own on top, which is then ended. -/
theorem run_inFunction_eq_ok {p p' : Progress} {r : α × List Stmt}
    (h : (inFunction x).run p = .ok (r, p')) :
    ∃ q, x.run { p with hoisting := p.hoisting.push } = .ok (r.1, q) ∧
      r.2 = q.hoisting.pop.1.statements ∧ p' = { q with hoisting := q.hoisting.pop.2 } := by
  obtain ⟨_, q₀, hpush, h⟩ := run_bind_eq_ok h
  cases hpush
  obtain ⟨a, q, hx, h⟩ := run_bind_eq_ok h
  obtain ⟨frame, q', hpop, h⟩ := run_bind_eq_ok h
  cases hpop
  cases h
  exact ⟨q, hx, rfl, rfl⟩

theorem run_inFunction_of_ok {p q : Progress} {a : α}
    (h : x.run { p with hoisting := p.hoisting.push } = .ok (a, q)) :
    (inFunction x).run p =
      .ok ((a, q.hoisting.pop.1.statements), { q with hoisting := q.hoisting.pop.2 }) := by
  unfold Lowering.inFunction
  rw [run_bind_of_ok (a := ()) (q := { p with hoisting := p.hoisting.push }) rfl, run_bind_of_ok h]
  rfl

theorem Yields.mono {S : α → Prop} (h : Yields R x Q) (hQ : ∀ a, Q a → S a) : Yields R x S :=
  fun _ _ _ hr => ⟨(h hr).1, hQ _ (h hr).2⟩

/-- Of a step without a useful result only the change is known. -/
theorem Yields.any (h : Yields R x Q) : Yields R x fun _ => True := h.mono fun _ _ => trivial

theorem yields_any (x : Lowering α) : Yields Any x fun _ => True := fun _ _ _ _ => ⟨trivial, trivial⟩

theorem Yields.throw (e : LowerError) : Yields R (throw e : Lowering α) Q := by
  intro p a p' h
  cases h

theorem Yields.ite {c : Prop} [Decidable c] {y : Lowering α} (hx : c → Yields R x Q)
    (hy : ¬c → Yields R y Q) : Yields R (if c then x else y) Q := by
  by_cases h : c
  · rw [if_pos h]
    exact hx h
  · rw [if_neg h]
    exact hy h

variable [Keeping R]

theorem Yields.pure {a : α} (h : Q a) : Yields R (pure a : Lowering α) Q := by
  intro p a p' hr
  cases hr
  exact ⟨Keeping.refl _, h⟩

theorem Yields.bind (hx : Yields R x Q) (hf : ∀ a, Q a → Yields R (f a) Q') :
    Yields R (x >>= f) Q' := by
  intro p b p' h
  obtain ⟨a, q, h₁, h₂⟩ := run_bind_eq_ok h
  have hfirst := hx h₁
  have hrest := hf a hfirst.2 h₂
  exact ⟨Keeping.trans hfirst.1 hrest.1, hrest.2⟩

theorem Yields.map {g : α → β} (hx : Yields R x Q) (hg : ∀ a, Q a → Q' (g a)) :
    Yields R (g <$> x) Q' := by
  rw [← bind_pure_comp]
  exact hx.bind fun a ha => .pure (hg a ha)

theorem Yields.deeper (s : Setting) (h : Yields R x Q) : Yields R (deeper s x) Q := by
  intro p a p' hr
  obtain ⟨-, q, hx, rfl⟩ := run_deeper_eq_ok hr
  obtain ⟨hR, hQ⟩ := h hx
  exact ⟨Keeping.trans (Keeping.trans (Keeping.depth _ _) hR) (Keeping.depth _ _), hQ⟩

theorem yields_guardPatternDepth (s : Setting) (depth : Nat) :
    Yields R (guardPatternDepth s depth) fun _ => True := by
  unfold guardPatternDepth
  exact .ite (fun _ => .pure trivial) fun _ => .throw _

theorem yields_requireRest : Yields R requireRest fun _ => True := by
  intro p a p' hr
  cases hr
  exact ⟨Keeping.rest p, trivial⟩

/-- A value is held by a temporary at most. -/
theorem yields_stabilize (bound : List String) (value : Expr) :
    Yields R (stabilize bound value) fun r => r = ([], value) ∨
      ∃ temporary, r = ([.assignName temporary value], .ofName temporary) := by
  unfold stabilize
  refine .ite (fun _ => .pure (.inl rfl)) fun _ => ?_
  have htemporary : Yields R (hoistGet (·.declareTemporary)) fun _ => True := by
    intro p a p' hr
    cases hr
    exact ⟨Keeping.temporary p, trivial⟩
  exact htemporary.bind fun temporary _ => .pure (.inr ⟨temporary, rfl⟩)

end Yields
end RegisterForm.Lowering
