import RegisterForm.Proofs.Run.Machine
/-!
# Rounds

With more rounds a run goes on from where it stopped with fewer: its record starts with the same
events, and a run that came to its end stays as it is. What holds of the record within any number
of rounds thus holds of every start of a run.
-/
namespace RegisterForm
namespace Run
variable {α β : Type} {r r' : Run α} {f : α → Run β}

/-! ## Records that grow -/

/-- The step only adds to the record. -/
def Adds (r : Run α) : Prop := ∀ ⦃m a n⦄, r.run m = some (a, n) → m.events <:+ n.events

theorem run_bind_eq_some {m n : Memory} {b : β} (h : (r >>= f).run m = some (b, n)) :
    ∃ a o, r.run m = some (a, o) ∧ (f a).run o = some (b, n) := by
  rw [StateT.run_bind] at h
  obtain ⟨⟨a, o⟩, hr, hf⟩ := Option.bind_eq_some_iff.mp h
  exact ⟨a, o, hr, hf⟩

namespace Adds

theorem pure (a : α) : Adds (pure a) := by
  intro m b n h
  cases h
  exact List.suffix_refl _

theorem bind (h : Adds r) (hf : ∀ a, Adds (f a)) : Adds (r >>= f) := by
  intro m b n hrun
  obtain ⟨a, o, hr, hfa⟩ := run_bind_eq_some hrun
  exact (h hr).trans (hf a hfa)

theorem ite {c : Prop} [Decidable c] (h : Adds r) (h' : Adds r') : Adds (if c then r else r') := by
  split
  · exact h
  · exact h'

theorem lift (a : Option α) : Adds (StateT.lift a : Run α) := by
  intro m b n h
  obtain ⟨c, -, hc⟩ := Option.bind_eq_some_iff.mp h
  cases hc
  exact List.suffix_refl _

theorem modify {step : Memory → Memory} (h : ∀ m, m.events <:+ (step m).events) :
    Adds (modify step : Run Unit) := by
  intro m a n hrun
  cases hrun
  exact h m

theorem inBlock (names : List String) (h : Adds r) : Adds (inBlock names r) := by
  refine .bind (modify fun m => ?_) fun _ => .bind h fun a => .bind (modify fun m => ?_) fun _ =>
    pure a
  · exact List.suffix_refl m.events
  · exact List.suffix_refl m.events

theorem inBlockIf (wanted : Bool) (names : List String) (h : Adds r) :
    Adds (inBlockIf wanted names r) := ite (inBlock names h) h

theorem publish (name : String) (v : Value) : Adds (publish name v) :=
  modify fun _ => List.suffix_cons _ _

theorem read (l : Linkage) (x : String) : Adds (l.read x) := by
  intro m v n h
  cases hfind : m.find? x with
  | some w =>
    simp only [Linkage.read, StateT.run, hfind] at h
    cases h
    exact List.suffix_refl _
  | none =>
    cases hforeign : l.foreign m.writes x none with
    | some w =>
      simp only [Linkage.read, StateT.run, hfind, hforeign] at h
      cases h
      exact List.suffix_refl _
    | none =>
      simp only [Linkage.read, StateT.run, hfind, hforeign] at h
      split at h <;> cases h
      exact List.suffix_refl _

theorem write (l : Linkage) (x : String) (v : Value) : Adds (l.write x v) := by
  intro m a n h
  cases hassign : Memory.assign? x v m.blocks with
  | some r =>
    simp only [Linkage.write, StateT.run, hassign] at h
    cases h
    exact List.suffix_cons _ _
  | none =>
    simp only [Linkage.write, StateT.run, hassign] at h
    split at h <;> cases h
    exact List.suffix_cons _ _

theorem readForeign (l : Linkage) (holder : String) (property : Option String) :
    Adds (l.readForeign holder property) := by
  intro m v n h
  obtain ⟨w, -, hw⟩ := Option.map_eq_some_iff.mp h
  cases hw
  exact List.suffix_refl _

theorem assign (op : AssignOp) {value : Run Value} {read : Run Value} {write : Value → Run Unit}
    (hread : Adds read) (hvalue : Adds value) (hwrite : ∀ v, Adds (write v)) :
    Adds (assign op read value write) := by
  unfold Run.assign
  split
  · exact .bind hread fun _ => .bind hvalue fun _ => .bind (lift _) fun v =>
      .bind (hwrite v) fun _ => pure v
  · exact ite (.bind hvalue fun v => .bind (hwrite v) fun _ => pure v) (lift _)

theorem update (op : UpdateOp) (isPrefix : Bool) {read : Run Value} {write : Value → Run Unit}
    (hread : Adds read) (hwrite : ∀ v, Adds (write v)) : Adds (update op isPrefix read write) :=
  .bind hread fun _ => .bind (hwrite _) fun _ => pure _

theorem repeatWhile {test : Run Value} {body : Run Bool} {after : Run Unit} (htest : Adds test)
    (hbody : Adds body) (hafter : Adds after) (rounds : Nat) :
    Adds (repeatWhile test body after rounds) := by
  induction rounds with
  | zero => exact pure false
  | succ rounds ih =>
    have hrest : Adds (do after; Run.repeatWhile test body after rounds) := .bind hafter fun _ => ih
    exact .bind htest fun _ => ite (.bind hbody fun _ => ite hrest (pure false)) (pure true)

end Adds
end Run

section adds
open Run
variable (l : Linkage)

mutual

theorem Expr.adds_eval : (e : Expr) → Adds (e.eval l)
  | .ident x => .ite (.readForeign l _ _) (.read l _)
  | .literal _ => .lift _
  | .binary _ left right =>
    .bind left.adds_eval fun _ => .bind right.adds_eval fun _ => .lift _
  | .assign op target value => by
    rw [Expr.eval_assign]
    split
    · exact .lift _
    · exact .assign op (.read l _) value.adds_eval fun v => .write l _ v
  | .update op isPrefix arg => by
    rw [Expr.eval_update]
    split
    · exact .lift _
    · exact .update op isPrefix (.read l _) fun v => .write l _ v
  | .conditional test yes no => .bind test.adds_eval fun _ => .ite yes.adds_eval no.adds_eval
  | .sequence exprs => adds_evalSequence exprs
  | .paren inner => inner.adds_eval
  | .call _ args false => .ite (adds_evalPublished args) (.lift _)
  | .member owner _ false => by
    rw [Expr.eval_member]
    split
    · exact .lift _
    · exact .readForeign l _ _
  | .index owner key false => by
    rw [Expr.eval_index]
    split
    · exact .readForeign l _ _
    · exact .lift _
  | .call _ _ true | .member _ _ true | .index _ _ true | .this | .super | .importMeta
  | .template _ _ | .tagged _ _ _ | .array _ | .object _ | .function _ | .arrow _ _ _
  | .classExpr _ | .unary _ _ | .newBare _ | .newCall _ _ | .yield _ _ | .await _ | .spread _
  | .importCall _ => .lift _

theorem adds_evalSequence : (es : List Expr) → Adds (evalSequence l es)
  | [] => .lift _
  | [e] => e.adds_eval
  | e :: e' :: es => .bind e.adds_eval fun _ => adds_evalSequence (e' :: es)

theorem adds_evalPublished : (es : List Expr) → Adds (evalPublished l es)
  | [name, value] => by
    rw [evalPublished]
    split
    · exact .lift _
    · exact .bind value.adds_eval fun v => .bind (.publish _ v) fun _ => .pure v
  | [] | [_] | _ :: _ :: _ :: _ => .lift _

end

theorem Declarator.adds_exec (d : Declarator) : Adds (d.exec l) := by
  unfold Declarator.exec
  split
  · exact .bind (Expr.adds_eval l _) fun v => .write l _ v
  · exact .lift _

theorem adds_execDeclarators (ds : List Declarator) : Adds (execDeclarators l ds) := by
  induction ds with
  | nil => exact .pure ()
  | cons d ds ih => exact .bind (d.adds_exec l) fun _ => ih

theorem ForInit.adds_exec (init : ForInit) : Adds (init.exec l) := by
  cases init with
  | absent => exact .pure ()
  | var list => exact adds_execDeclarators l list.declarators
  | expr e => exact .bind (e.adds_eval l) fun _ => .pure ()

theorem adds_evalTest (e : Option Expr) : Adds (evalTest l e) := by
  cases e with
  | none => exact .pure _
  | some e => exact e.adds_eval l

theorem adds_execUpdate (e : Option Expr) : Adds (execUpdate l e) := by
  cases e with
  | none => exact .pure ()
  | some e => exact .bind (e.adds_eval l) fun _ => .pure ()

end adds

/-! ## Runs that go on -/

/-- The second step goes on from where the first one stopped, if that did not come to its end. -/
structure Run.GoesOn (r r' : Run Bool) : Prop where
  adds : Adds r'
  starts : ∀ ⦃m ended n ended' n'⦄, r.run m = some (ended, n) → r'.run m = some (ended', n') →
    n.events <:+ n'.events ∧ (ended = true → ended' = true ∧ n' = n)

namespace Run.GoesOn
variable {α : Type} {r r' k k' : Run Bool} {x : Run α} {f f' : α → Run Bool}

theorem same (h : Adds r) : GoesOn r r where
  adds := h
  starts m ended n ended' n' hr hr' := by
    rw [hr] at hr'
    cases hr'
    exact ⟨List.suffix_refl _, fun hended => ⟨hended, rfl⟩⟩

theorem stopped (h : Adds r) : GoesOn (pure false) r where
  adds := h
  starts m ended n ended' n' hr hr' := by
    cases hr
    exact ⟨h hr', nofun⟩

theorem bind (h : Adds x) (hf : ∀ a, GoesOn (f a) (f' a)) : GoesOn (x >>= f) (x >>= f') where
  adds := h.bind fun a => (hf a).adds
  starts m ended n ended' n' hr hr' := by
    obtain ⟨a, o, hx, hfa⟩ := run_bind_eq_some hr
    obtain ⟨a', o', hx', hfa'⟩ := run_bind_eq_some hr'
    rw [hx] at hx'
    cases hx'
    exact (hf a).starts hfa hfa'

theorem ite {c : Prop} [Decidable c] (h : GoesOn r r') (hk : GoesOn k k') :
    GoesOn (if c then r else k) (if c then r' else k') := by
  split
  · exact h
  · exact hk

/-- One step and then, at its end, the next. -/
theorem next (h : GoesOn r r') (hk : GoesOn k k') :
    GoesOn (do if ← r then k else return false) (do if ← r' then k' else return false) where
  adds := h.adds.bind fun _ => .ite hk.adds (.pure false)
  starts m ended n ended' n' hr hr' := by
    obtain ⟨first, o, hfirst, hrest⟩ := run_bind_eq_some hr
    obtain ⟨first', o', hfirst', hrest'⟩ := run_bind_eq_some hr'
    obtain ⟨hstart, hend⟩ := h.starts hfirst hfirst'
    cases first with
    | true =>
      obtain ⟨rfl, rfl⟩ := hend rfl
      exact hk.starts hrest hrest'
    | false =>
      -- the first run stopped here, and whatever the second one does next adds to the record
      cases hrest
      have hadds : Adds (if first' then k' else Pure.pure false) := .ite hk.adds (.pure false)
      exact ⟨hstart.trans (hadds hrest'), nofun⟩

theorem inBlock (names : List String) (h : GoesOn r r') :
    GoesOn (inBlock names r) (inBlock names r') where
  adds := h.adds.inBlock names
  starts m ended n ended' n' hr hr' := by
    obtain ⟨_, o, hopen, hr⟩ := run_bind_eq_some hr
    obtain ⟨_, o', hopen', hr'⟩ := run_bind_eq_some hr'
    cases hopen
    cases hopen'
    obtain ⟨a, p, hbody, hclose⟩ := run_bind_eq_some hr
    obtain ⟨a', p', hbody', hclose'⟩ := run_bind_eq_some hr'
    cases hclose
    cases hclose'
    obtain ⟨hstart, hend⟩ := h.starts hbody hbody'
    refine ⟨hstart, fun hended => ?_⟩
    obtain ⟨hended', rfl⟩ := hend hended
    exact ⟨hended', rfl⟩

theorem repeatWhile {test : Run Value} {after : Run Unit} (htest : Adds test) (h : GoesOn r r')
    (hafter : Adds after) {rounds rounds' : Nat} (hrounds : rounds ≤ rounds') :
    GoesOn (repeatWhile test r after rounds) (repeatWhile test r' after rounds') := by
  induction rounds generalizing rounds' with
  | zero => exact stopped (.repeatWhile htest h.adds hafter rounds')
  | succ rounds ih =>
    obtain _ | rounds' := rounds'
    · cases hrounds
    · have hrest := ih (Nat.le_of_succ_le_succ hrounds)
      exact bind htest fun _ => ite (h.next (bind hafter fun _ => hrest)) (same (.pure true))

end Run.GoesOn

section rounds
open Run
variable (l : Linkage) {rounds rounds' : Nat}

mutual

theorem Stmt.goesOn_exec (hrounds : rounds ≤ rounds') :
    (st : Stmt) → GoesOn (st.exec l rounds) (st.exec l rounds')
  | .expr e => .same (.bind (e.adds_eval l) fun _ => .pure true)
  | .var _ list => .same (.bind (adds_execDeclarators l list.declarators) fun _ => .pure true)
  | .block body => .inBlock _ (goesOn_execStmts hrounds body)
  | .ifThen test yes =>
    .bind (test.adds_eval l) fun _ => .ite (yes.goesOn_exec hrounds) (.same (.pure true))
  | .ifElse test yes no =>
    .bind (test.adds_eval l) fun _ => .ite (yes.goesOn_exec hrounds) (no.goesOn_exec hrounds)
  | .whileLoop test body =>
    .repeatWhile (test.adds_eval l) (body.goesOn_exec hrounds) (.pure ()) hrounds
  | .forLoop init test update body => by
    have hloop := GoesOn.bind (init.adds_exec l) fun _ => GoesOn.repeatWhile (adds_evalTest l test)
      (body.goesOn_exec hrounds) (adds_execUpdate l update) hrounds
    exact .ite (.inBlock _ hloop) hloop
  | .importFrom _ _ _ _ | .importEquals _ _ _ .require _ | .exportFrom _ _ none _ | .empty =>
    .same (.pure true)
  | .importEquals _ _ _ .entity _ | .exportFrom _ _ (some _) _ | .function _ _ | .classDecl _ _
  | .exportValue _ _ _ | .ambient _ _ | .forIn _ _ _ | .forOf _ _ _ _ | .doWhile _ _
  | .tryCatch _ _ _ | .switch _ _ | .labeled _ _ | .withObject _ _ | .ret _ | .throw _
  | .breakTo _ | .continueTo _ | .debugger => .same (.lift _)
termination_by structural st => st

/-- With more rounds, statements go on from where they stopped. -/
theorem goesOn_execStmts (hrounds : rounds ≤ rounds') : (sts : List Stmt) →
    GoesOn (execStmts l rounds sts) (execStmts l rounds' sts)
  | [] => .same (.pure true)
  | st :: sts => .next (st.goesOn_exec hrounds) (goesOn_execStmts hrounds sts)
termination_by structural sts => sts

end

end rounds
end RegisterForm
