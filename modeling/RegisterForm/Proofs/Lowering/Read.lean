import RegisterForm.Proofs.Lowering.Leaves
/-!
# Reads

Only an identifier, alone or in parentheses, is lowered to one: to what it reads. Writes are
lowered to assignments, updates and calls around them.
-/
namespace RegisterForm
open Lowering

/-- The expression is no identifier, not even in parentheses. -/
def Expr.IsCompound (e : Expr) : Prop := ∀ x, e.skipParens ≠ .ident x

namespace Setting
variable {s : Setting}

theorem skipParens_read (x : Ident) : (s.read x).skipParens = s.read x := by
  unfold read importedProperty
  repeat' split
  all_goals rfl

theorem isCompound_published (x : Ident) {value : Expr} (h : value.IsCompound) :
    (s.published x value).IsCompound := by
  have hall : ∀ (names : List String) (e : Expr), e.IsCompound →
      (names.foldl (fun value name => s.publish name value) e).IsCompound := by
    intro names
    induction names with
    | nil => exact fun _ h => h
    | cons name names ih => exact fun e _ => ih _ nofun
  exact hall _ _ h

theorem isCompound_publishedTo (target : Pattern) {value : Expr} (h : value.IsCompound) :
    (s.publishedTo target value).IsCompound := by
  unfold publishedTo
  split
  · exact isCompound_published _ h
  · exact h

theorem isCompound_publishedUpdate? {op : UpdateOp} {isPrefix isUsed : Bool} {arg e : Expr}
    (h : s.publishedUpdate? op isPrefix isUsed arg = some e) : e.IsCompound := by
  unfold publishedUpdate? at h
  split at h
  · split at h
    · cases h
    · split at h <;> cases h
      · apply isCompound_published
        intro y hy
        cases hy
      · intro y hy
        cases hy
  · cases h

theorem Assigns.isCompound {xs : List Ident} {es : List Expr} (h : s.Assigns xs es) :
    ∀ e ∈ es, e.IsCompound := by
  induction h with
  | nil => nofun
  | leaf x value _ ih => exact List.forall_mem_cons.mpr ⟨isCompound_published x nofun, ih⟩
  | temporary name value _ ih => exact List.forall_mem_cons.mpr ⟨nofun, ih⟩
  | target target value _ ih => exact List.forall_mem_cons.mpr ⟨nofun, ih⟩

theorem Assigns.ne_nil {xs : List Ident} {es : List Expr} (h : s.Assigns xs es) (hxs : xs ≠ []) :
    es ≠ [] := by
  cases h with
  | nil => exact absurd rfl hxs
  | leaf | temporary | target => nofun

end Setting

theorem Expr.isCompound_ofList {e value : Expr} {es : List Expr} (he : e ∈ es)
    (h : e.IsCompound) : ((Expr.ofList es).getD value).IsCompound := by
  match es, he with
  | [_], he =>
    obtain rfl := List.mem_singleton.mp he
    exact h
  | _ :: _ :: _, _ => nofun

variable {s : Setting}

/-- An assignment stays an assignment, or becomes several of them. -/
theorem lower_assign_isCompound (op : AssignOp) (target : Pattern) (value : Expr)
    (isUsed : Bool) : Yields Any ((Expr.assign op target value).lower s isUsed) Expr.IsCompound := by
  refine .deeper s (.ite (fun h => ?_) fun _ => ?_)
  · obtain ⟨x, hx, -⟩ := List.any_eq_true.mp (Bool.and_eq_true_iff.mp h).2
    refine (yields_any _).bind fun value _ => ?_
    have hassigns : ∀ (held : List Expr) (value : Expr) (result : List Expr), Yields Any (do
        let exprs ← target.flatten s target.boundNames 0 value
        return (Expr.ofList (held ++ exprs ++ result)).getD value) Expr.IsCompound := by
      intro held value result
      refine (target.flatten_assigns _ 0 value).bind fun exprs hexprs => .pure ?_
      obtain ⟨e, he⟩ := List.exists_mem_of_ne_nil _ (hexprs.ne_nil (List.ne_nil_of_mem hx))
      exact Expr.isCompound_ofList (by simp [he]) (hexprs.isCompound e he)
    exact .ite (fun _ => (yields_any _).bind fun ⟨held, value⟩ _ => hassigns held value _)
      fun _ => hassigns [] value _
  · exact (yields_any _).bind fun target _ => (yields_any _).bind fun value _ =>
      .pure (s.isCompound_publishedTo target nofun)

/-- What is lowered to an identifier is an identifier that reads so. -/
theorem Expr.lower_ident : (e : Expr) → (isUsed : Bool) →
    Yields Any (e.lower s isUsed) fun e' => ∀ y, e'.skipParens = .ident y →
      ∃ x, e.skipParens = .ident x ∧ s.read x = .ident y
  | .ident x, _ => by
    exact .deeper s (.pure fun y hy => ⟨x, rfl, (Setting.skipParens_read x).symm.trans hy⟩)
  | .paren inner, isUsed => by
    exact .deeper s ((inner.lower_ident isUsed).bind fun _ h => .pure h)
  | .assign op target value, isUsed =>
    (lower_assign_isCompound op target value isUsed).mono fun _ h y hy => absurd hy (h y)
  | .update op isPrefix arg, isUsed => by
    refine .deeper s ?_
    cases hp : s.publishedUpdate? op isPrefix isUsed arg with
    | some e => exact .pure fun y hy => absurd hy (Setting.isCompound_publishedUpdate? hp y)
    | none => exact (yields_any _).bind fun _ _ => .pure nofun
  | .literal value, _ | .this, _ | .super, _ | .importMeta, _ => by
    exact .deeper s (.pure nofun)
  | .template _ _, _ | .array _, _ | .object _, _ | .function _, _ | .arrow _ _ _, _
  | .classExpr _, _ | .unary _ _, _ | .newBare _, _ | .member _ _ _, _ | .sequence _, _
  | .yield _ _, _ | .await _, _ | .spread _, _ | .importCall _, _ => by
    exact .deeper s ((yields_any _).bind fun _ _ => .pure nofun)
  | .tagged _ _ _, _ | .binary _ _ _, _ | .call _ _ _, _ | .newCall _ _, _ | .index _ _ _, _ => by
    exact .deeper s ((yields_any _).bind fun _ _ => (yields_any _).bind fun _ _ => .pure nofun)
  | .conditional _ _ _, _ => by
    exact .deeper s ((yields_any _).bind fun _ _ => (yields_any _).bind fun _ _ =>
      (yields_any _).bind fun _ _ => .pure nofun)

theorem Func.lower_name (s : Setting) (f : Func) :
    Yields Any (f.lower s) fun f' => f'.name = f.name := by
  obtain ⟨name, params, body, isAsync, isGenerator⟩ := f
  exact (yields_any _).bind fun _ _ => .pure rfl

end RegisterForm
