import RegisterForm.Proofs.Lowering.Yields
import RegisterForm.Proofs.Run.Linked
/-!
# Lowered expressions agree

Each expression of arithmetic and what it is lowered to have the same value, write the same and
publish what is written, where the value is used; where it is not, they need not have the same value.
-/
namespace RegisterForm

namespace Lowering

/-- If the step succeeds at depth `d`, it ends there and makes something that satisfies `Q`. -/
def Makes {α : Type} (d : Nat) (x : Lowering α) (Q : α → Prop) : Prop :=
  ∀ ⦃p a p'⦄, p.depth = d → x.run p = .ok (a, p') → p'.depth = d ∧ Q a

namespace Makes
variable {α β : Type} {d : Nat} {x : Lowering α} {f : α → Lowering β} {Q : α → Prop}
  {Q' : β → Prop}

theorem mono {S : α → Prop} (h : Makes d x Q) (hQ : ∀ a, Q a → S a) : Makes d x S :=
  fun _ _ _ hp hr => ⟨(h hp hr).1, hQ _ (h hp hr).2⟩

theorem pure {a : α} (h : Q a) : Makes d (pure a : Lowering α) Q := by
  intro p b p' hp hr
  cases hr
  exact ⟨hp, h⟩

theorem bind (hx : Makes d x Q) (hf : ∀ a, Q a → Makes d (f a) Q') : Makes d (x >>= f) Q' := by
  intro p b p' hp hr
  obtain ⟨a, q, hfirst, hrest⟩ := run_bind_eq_ok hr
  obtain ⟨hq, ha⟩ := hx hp hfirst
  exact hf a ha hq hrest

theorem map {g : α → β} (hx : Makes d x Q) (hg : ∀ a, Q a → Q' (g a)) :
    Makes d (x >>= fun a => Pure.pure (g a)) Q' :=
  hx.bind fun a ha => pure (hg a ha)

theorem deeper {s : Setting} (h : d < maxTreeDepth → Makes (d + 1) x Q) :
    Makes d (Lowering.deeper s x) Q := by
  intro p a p' hp hr
  obtain ⟨hlt, q, hx, rfl⟩ := run_deeper_eq_ok hr
  subst hp
  obtain ⟨hdepth, hQ⟩ := h hlt (p := { p with depth := p.depth + 1 }) rfl hx
  exact ⟨congrArg (· - 1) hdepth, hQ⟩

/-- A step that keeps the depth, and whose result is of no use. -/
theorem keeping {step : Lowering Unit} (h : ∀ {p q}, step.run p = .ok ((), q) → q.depth = p.depth) :
    Makes d step fun _ => True :=
  fun _ _ _ hp hr => ⟨(h hr).trans hp, trivial⟩

end Makes
end Lowering

open Lowering

namespace Setting

/-- Of the references that lowering reaches, the table tells what the blocks around them tell. -/
def TellsAll (s : Setting) (us : List NameUse) : Prop :=
  ∀ u ∈ us, u.depth ≤ maxTreeDepth ∨ s.names.symbolOf? u.ident ≠ none →
    ∀ blocks, u.scopes = blocks ++ [s.file.bindings] → s.Tells blocks.names u.ident

variable {s : Setting} {us vs : List NameUse}

theorem tellsAll_append : s.TellsAll (us ++ vs) ↔ s.TellsAll us ∧ s.TellsAll vs :=
  List.forall_mem_append

/-- What is published stands for a symbol. -/
theorem symbolOf?_of_exportNames {x : Ident} (h : s.exportNames x ≠ []) :
    s.names.symbolOf? x ≠ none := by
  intro hnone
  refine h (if_pos ?_)
  have hexporter : s.names.exporterOf? x = none := by rw [NameTable.exporterOf?, hnone]; rfl
  simp [hexporter]

end Setting

/-- The variable inside parentheses is a reference. -/
theorem Expr.use_of_skipParens {x : Ident} (scopes : Scopes) : (e : Expr) → (d : Nat) →
    e.skipParens = .ident x → ∃ u ∈ e.uses scopes d, u.ident = x ∧ u.scopes = scopes
  | .ident y, d, h => by
    cases h
    exact ⟨_, List.mem_singleton.mpr rfl, rfl, rfl⟩
  | .paren inner, d, h => inner.use_of_skipParens scopes (d + 1) h
  | .literal _, _, h | .this, _, h | .super, _, h | .importMeta, _, h | .template _ _, _, h
  | .tagged _ _ _, _, h | .array _, _, h | .object _, _, h | .function _, _, h
  | .arrow _ _ _, _, h | .classExpr _, _, h | .unary _ _, _, h | .update _ _ _, _, h
  | .binary _ _ _, _, h | .assign _ _ _, _, h | .conditional _ _ _, _, h | .call _ _ _, _, h
  | .newBare _, _, h | .newCall _ _, _, h | .member _ _ _, _, h | .index _ _ _, _, h
  | .sequence _, _, h | .yield _ _, _, h | .await _, _, h | .spread _, _, h
  | .importCall _, _, h => by cases h

/-- A variable inside parentheses is lowered in its place. -/
theorem Expr.lower_parens {s : Setting} {x : Ident} (scopes : Scopes) : (e : Expr) →
    (isUsed : Bool) → (d : Nat) → e.skipParens = .ident x → Makes d (e.lower s isUsed) fun e' =>
      e'.skipParens = s.read x ∧
        ∃ u ∈ e.uses scopes d, u.ident = x ∧ u.scopes = scopes ∧ u.depth ≤ maxTreeDepth
  | .ident y, isUsed, d, h => by
    cases h
    exact .deeper fun hd => .pure ⟨s.skipParens_read x, _, List.mem_singleton.mpr rfl, rfl, rfl, hd⟩
  | .paren inner, isUsed, d, h =>
    .deeper fun _ => (inner.lower_parens scopes isUsed (d + 1) h).map fun _ h => h
  | .literal _, _, _, h | .this, _, _, h | .super, _, _, h | .importMeta, _, _, h
  | .template _ _, _, _, h | .tagged _ _ _, _, _, h | .array _, _, _, h | .object _, _, _, h
  | .function _, _, _, h | .arrow _ _ _, _, _, h | .classExpr _, _, _, h | .unary _ _, _, _, h
  | .update _ _ _, _, _, h | .binary _ _ _, _, _, h | .assign _ _ _, _, _, h
  | .conditional _ _ _, _, _, h | .call _ _ _, _, _, h | .newBare _, _, _, h
  | .newCall _ _, _, _, h | .member _ _ _, _, _, h | .index _ _ _, _, _, h | .sequence _, _, _, h
  | .yield _ _, _, _, h | .await _, _, _, h | .spread _, _, _, h | .importCall _, _, _, h => by
    cases h

/-! ## Expressions -/

theorem evalSequence_cons {l : Linkage} {e : Expr} {es : List Expr} (h : es ≠ []) :
    evalSequence l (e :: es) = (do
      let _ ← e.eval l
      evalSequence l es) := by
  cases es with
  | nil => exact absurd rfl h
  | cons e' es => rfl

section agrees
variable {s : Setting} {env : ForeignValues} {l' : Linkage} {blocks : Scopes}

theorem lower_update_agrees (hl : s.Linked env l') {op : UpdateOp} {isPrefix : Bool} {arg : Expr}
    (isUsed : Bool) (d : Nat) (ha : arg.skipParens.ident?.isSome = true)
    (hscoped : arg.skipParens.ident?.all
      (s.file.isVariable blocks.names) = true)
    (ht : s.TellsAll (arg.uses (blocks ++ [s.file.bindings]) (d + 1))) :
    Makes d ((Expr.update op isPrefix arg).lower s isUsed) fun e' =>
      Agrees s.publicNames blocks.names (fun v v' => isUsed = true → v' = v)
        ((Expr.update op isPrefix arg).eval (s.file.linkage env)) (e'.eval l') := by
  obtain ⟨x, hx⟩ := Option.isSome_iff_exists.mp ha
  have harg : arg.skipParens = .ident x := by
    unfold Expr.ident? at hx
    split at hx <;> cases hx
    assumption
  have hvariable : s.file.isVariable blocks.names x = true := by
    simpa [hx] using hscoped
  refine .deeper fun _ => ?_
  cases hp : s.publishedUpdate? op isPrefix isUsed arg with
  | some e =>
    -- what is published was resolved, however deep it stands
    have hnames : s.exportNames x ≠ [] := fun hnone => by
      simp [Setting.publishedUpdate?, harg, hnone] at hp
    obtain ⟨u, hu, rfl, hscopes⟩ := arg.use_of_skipParens (blocks ++ [s.file.bindings]) (d + 1) harg
    have htells := ht u hu (.inr (s.symbolOf?_of_exportNames hnames)) blocks hscopes
    exact .pure (s.agrees_publishedUpdate hl htells hvariable harg hp)
  | none =>
    have hnames : s.exportNames x = [] := by
      by_contra hne
      simp [Setting.publishedUpdate?, harg, hne] at hp
    refine (arg.lower_parens (blocks ++ [s.file.bindings]) true (d + 1) harg).map ?_
    rintro e' ⟨he', u, hu, rfl, hscopes, hd⟩
    have htells := ht u hu (.inl hd) blocks hscopes
    rw [s.read_of_variable hl htells hvariable] at he'
    have hwrite := s.agrees_written hl htells hvariable
    rw [hnames, Linkage.writeOut_nil] at hwrite
    have heval : ∀ (l : Linkage) (e : Expr), e.skipParens = .ident u.ident →
        (Expr.update op isPrefix e).eval l =
          Run.update op isPrefix (l.read u.ident.name) (l.write u.ident.name) := by
      intro l e he
      rw [Expr.eval_update, he]
      rfl
    rw [heval _ _ harg, heval _ _ he']
    exact (agrees_update (s.agrees_variable hl hvariable) hwrite).mono fun v v' h _ => h rfl

mutual

theorem Expr.lower_agrees (hl : s.Linked env l') : (e : Expr) → (isUsed : Bool) → (d : Nat) →
    e.isArithmetic = true → e.isScoped s.file blocks.names = true →
    s.TellsAll (e.uses (blocks ++ [s.file.bindings]) d) →
    Makes d (e.lower s isUsed) fun e' =>
      Agrees s.publicNames blocks.names (fun v v' => isUsed = true → v' = v)
        (e.eval (s.file.linkage env)) (e'.eval l')
  | .ident x, _, d, _, hscoped, ht => .deeper fun hd =>
    .pure ((s.agrees_ident hl (ht _ (.head _) (.inl hd) blocks rfl) hscoped).mono
      fun _ _ h _ => h)
  | .literal value, _, _, ha, _, _ => by
    obtain ⟨v, hv⟩ := Option.isSome_iff_exists.mp (show value.value?.isSome = true from ha)
    refine .deeper fun _ => .pure ?_
    change Agrees _ _ _ (StateT.lift value.value?) (StateT.lift value.value?)
    rw [hv]
    exact .lift fun _ => rfl
  | .binary op left right, _, d, ha, hscoped, ht => by
    obtain ⟨ha, haright⟩ := Bool.and_eq_true_iff.mp ha
    obtain ⟨haop, haleft⟩ := Bool.and_eq_true_iff.mp ha
    obtain ⟨hsleft, hsright⟩ := Bool.and_eq_true_iff.mp hscoped
    obtain ⟨htleft, htright⟩ := s.tellsAll_append.mp ht
    refine .deeper fun _ => ?_
    refine (left.lower_agrees hl true (d + 1) haleft hsleft htleft).bind fun left' hleft => ?_
    refine (right.lower_agrees hl true (d + 1) haright hsright htright).map fun right' hright => ?_
    refine .bind hleft fun a a' haa => .bind hright fun b b' hbb => ?_
    rw [haa rfl, hbb rfl]
    obtain ⟨v, hv⟩ := BinaryOp.compute?_isSome haop a b
    rw [hv]
    exact .lift fun _ => rfl
  | .assign op target value, _, d, ha, hscoped, ht => by
    obtain ⟨ha, havalue⟩ := Bool.and_eq_true_iff.mp ha
    obtain ⟨haop, hatarget⟩ := Bool.and_eq_true_iff.mp ha
    obtain ⟨hstarget, hsvalue⟩ := Bool.and_eq_true_iff.mp hscoped
    obtain ⟨x, hx⟩ := Option.isSome_iff_exists.mp hatarget
    obtain rfl : target = .ident x := by
      cases target <;> cases hx
      rfl
    obtain ⟨httarget, htvalue⟩ := s.tellsAll_append.mp ht
    have hvariable : s.file.isVariable blocks.names x = true := hstarget
    refine .deeper fun hd => ?_
    have htells := httarget _ (.head _) (.inl hd) blocks rfl
    rw [if_neg (by simp [Pattern.isDestructuring])]
    refine (Makes.pure (Q := (· = .ident x)) rfl).bind ?_
    rintro _ rfl
    refine (value.lower_agrees hl true (d + 1) havalue hsvalue htvalue).map fun value' hvalue => ?_
    have heval : (s.publishedTo (.ident x) (.assign op (.ident x) value')).eval l' = _ :=
      s.eval_published_assign hl.exporter rfl op value'
    rw [heval]
    refine Agrees.mono ?_ fun _ _ h _ => h
    exact agrees_assign (by simpa using haop) (s.agrees_variable hl hvariable)
      (hvalue.mono fun _ _ h => h rfl) (s.agrees_written hl htells hvariable)
  | .update op isPrefix arg, isUsed, d, ha, hscoped, ht =>
    lower_update_agrees hl isUsed d ha hscoped ht
  | .conditional test yes no, isUsed, d, ha, hscoped, ht => by
    obtain ⟨ha, hano⟩ := Bool.and_eq_true_iff.mp ha
    obtain ⟨hatest, hayes⟩ := Bool.and_eq_true_iff.mp ha
    obtain ⟨hscoped, hsno⟩ := Bool.and_eq_true_iff.mp hscoped
    obtain ⟨hstest, hsyes⟩ := Bool.and_eq_true_iff.mp hscoped
    obtain ⟨ht, htno⟩ := s.tellsAll_append.mp ht
    obtain ⟨httest, htyes⟩ := s.tellsAll_append.mp ht
    refine .deeper fun _ => ?_
    refine (test.lower_agrees hl true (d + 1) hatest hstest httest).bind fun test' htest => ?_
    refine (yes.lower_agrees hl isUsed (d + 1) hayes hsyes htyes).bind fun yes' hyes => ?_
    refine (no.lower_agrees hl isUsed (d + 1) hano hsno htno).map fun no' hno => ?_
    exact .bind htest fun v v' hv => .ite (congrArg _ (hv rfl)) hyes hno
  | .sequence exprs, isUsed, d, ha, hscoped, ht => by
    obtain ⟨hne, haexprs⟩ := Bool.and_eq_true_iff.mp ha
    have hne : exprs ≠ [] := by simpa using hne
    exact .deeper fun _ => (lowerSequence_agrees hl exprs isUsed (d + 1) haexprs hscoped ht).map
      fun es' h => h.2 hne
  | .paren inner, isUsed, d, ha, hscoped, ht => .deeper fun _ =>
    (inner.lower_agrees hl isUsed (d + 1) ha hscoped ht).map fun _ h => h
  | .this, _, _, ha, _, _ | .super, _, _, ha, _, _ | .importMeta, _, _, ha, _, _
  | .template _ _, _, _, ha, _, _ | .tagged _ _ _, _, _, ha, _, _ | .array _, _, _, ha, _, _
  | .object _, _, _, ha, _, _ | .function _, _, _, ha, _, _ | .arrow _ _ _, _, _, ha, _, _
  | .classExpr _, _, _, ha, _, _ | .unary _ _, _, _, ha, _, _ | .call _ _ _, _, _, ha, _, _
  | .newBare _, _, _, ha, _, _ | .newCall _ _, _, _, ha, _, _ | .member _ _ _, _, _, ha, _, _
  | .index _ _ _, _, _, ha, _, _ | .yield _ _, _, _, ha, _, _ | .await _, _, _, ha, _, _
  | .spread _, _, _, ha, _, _ | .importCall _, _, _, ha, _, _ => by cases ha

theorem lowerSequence_agrees (hl : s.Linked env l') : (es : List Expr) → (isUsed : Bool) →
    (d : Nat) → areArithmetic es = true →
    exprsScoped s.file blocks.names es = true →
    s.TellsAll (exprsUses es (blocks ++ [s.file.bindings]) d) →
    Makes d (lowerSequence s isUsed es) fun es' => (es' = [] ↔ es = []) ∧ (es ≠ [] →
      Agrees s.publicNames blocks.names (fun v v' => isUsed = true → v' = v)
        (evalSequence (s.file.linkage env) es) (evalSequence l' es'))
  | [], _, _, _, _, _ => .pure ⟨Iff.rfl, fun h => absurd rfl h⟩
  | e :: es, isUsed, d, ha, hscoped, ht => by
    obtain ⟨hae, haes⟩ := Bool.and_eq_true_iff.mp ha
    obtain ⟨hse, hses⟩ := Bool.and_eq_true_iff.mp hscoped
    obtain ⟨hte, htes⟩ := s.tellsAll_append.mp ht
    refine (e.lower_agrees hl (isUsed && es.isEmpty) d hae hse hte).bind fun e' he => ?_
    refine (lowerSequence_agrees hl es isUsed d haes hses htes).map ?_
    rintro es' ⟨hnil, hes⟩
    refine ⟨by simp, fun _ => ?_⟩
    by_cases hlast : es = []
    · obtain rfl := hnil.mpr hlast
      subst hlast
      exact he.mono fun v v' h hused => h (by simp [hused])
    · rw [evalSequence_cons hlast, evalSequence_cons (hnil.not.mpr hlast)]
      exact .bind he fun _ _ _ => hes hlast

end
end agrees
end RegisterForm
