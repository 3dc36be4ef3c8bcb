import RegisterForm.Proofs.Run.Expression
/-!
# Lowered declarations agree

A declaration with a value that is hoisted becomes an assignment, which publishes what it writes; one
that a block keeps stays a declaration. Either way the lowered module writes the same.
-/
namespace RegisterForm
open Lowering

namespace Lowering.Makes
variable {α : Type} {d : Nat} {Q : α → Prop}

theorem hoist (step : Hoisting → Hoisting) : Makes d (Lowering.hoist step) fun _ => True :=
  keeping fun hr => by
    cases hr
    rfl

theorem addExportedName (name : String) : Makes d (Lowering.addExportedName name) fun _ => True :=
  keeping fun {p q} hr => by
    change Except.ok ((), if p.exportedNames.contains name then p else _) = _ at hr
    cases hr
    split <;> rfl

theorem addExportedNames : (names : List String) →
    Makes d (Lowering.addExportedNames names) fun _ => True
  | [] => .pure trivial
  | name :: names => (addExportedName name).bind fun _ _ => addExportedNames names

theorem addFunctionExport (call : Expr) :
    Makes d (Lowering.addFunctionExport call) fun _ => True :=
  keeping fun hr => by
    cases hr
    rfl

theorem guardPatternDepth (s : Setting) (depth : Nat) :
    Makes d (Lowering.guardPatternDepth s depth) fun _ => True := by
  unfold Lowering.guardPatternDepth
  split
  · exact .pure trivial
  · intro p a p' hp hr
    cases hr

end Lowering.Makes

/-! ## Expressions one after the other -/

section lists
variable {l : Linkage} {es : List Expr}

/-- Evaluates expressions for what they write. -/
def evalEach (l : Linkage) : List Expr → Run Unit
  | [] => return
  | e :: es => do
    let _ ← e.eval l
    evalEach l es

theorem evalEach_append (es es' : List Expr) : evalEach l (es ++ es') = (do
    evalEach l es
    evalEach l es') := by
  induction es with
  | nil => rfl
  | cons e es ih => simp [evalEach, ih]

theorem evalSequence_unused : (es : List Expr) → es ≠ [] → (do
    let _ ← evalSequence l es
    return) = evalEach l es
  | [], h => absurd rfl h
  | [e], _ => rfl
  | e :: e' :: es, _ => by
    rw [evalSequence_cons (List.cons_ne_nil e' es), evalEach, bind_assoc]
    congr 1
    funext _
    exact evalSequence_unused (e' :: es) (List.cons_ne_nil _ _)

theorem Expr.ofList_eq_none (h : Expr.ofList es = none) : es = [] := by
  rcases es with _ | ⟨e, _ | ⟨e', es⟩⟩
  · rfl
  · cases h
  · cases h

/-- Expressions that are joined by commas are evaluated one after the other. -/
theorem eval_ofList {e : Expr} (h : Expr.ofList es = some e) : (do
    let _ ← e.eval l
    return) = evalEach l es := by
  match es, h with
  | [e], rfl => rfl
  | e :: e' :: es, rfl => exact evalSequence_unused _ (List.cons_ne_nil _ _)

end lists

/-! ## Declarations -/

/-- Where the identifiers are not hidden, the table tells what they declare. -/
def Setting.TellsDeclared (s : Setting) (xs : List Ident) : Prop :=
  ∀ x ∈ xs, ∀ scopes : List (List String), x.name ∉ scopes.flatten → s.Tells scopes x

section declarations
variable {s : Setting} {env : ForeignValues} {l' : Linkage} {blocks : Scopes}

theorem Setting.tellsDeclared_append {xs ys : List Ident} :
    s.TellsDeclared (xs ++ ys) ↔ s.TellsDeclared xs ∧ s.TellsDeclared ys := List.forall_mem_append

theorem Setting.tellsDeclared_bindings {bs cs : List Binding} :
    s.TellsDeclared ((bs ++ cs).map (·.ident)) ↔
      s.TellsDeclared (bs.map (·.ident)) ∧ s.TellsDeclared (cs.map (·.ident)) := by
  rw [List.map_append, tellsDeclared_append]

/-- A declaration of one name with a value. -/
theorem Declarator.exists_of_isArithmetic {v : Declarator} (h : v.isArithmetic = true) :
    ∃ x init, v = ⟨.ident x, some init⟩ ∧ init.isArithmetic = true := by
  obtain ⟨target, init⟩ := v
  obtain ⟨htarget, hinit⟩ := Bool.and_eq_true_iff.mp h
  obtain ⟨init, rfl, ha⟩ := (Option.any_eq_true ..).mp hinit
  obtain ⟨x, hx⟩ := Option.isSome_iff_exists.mp htarget
  obtain rfl : target = .ident x := by
    cases target <;> cases hx
    rfl
  exact ⟨x, init, rfl, ha⟩

/-- A hoisted declaration is lowered to assignments that write the same. -/
theorem Declarator.hoisted_agrees (hl : s.Linked env l') {v : Declarator} (d : Nat)
    (ha : v.isArithmetic = true) (hscoped : v.isScoped s.file blocks.names true = true)
    (hd : s.TellsDeclared v.target.boundIdents)
    (ht : s.TellsAll (v.uses (blocks ++ [s.file.bindings]) d)) :
    Makes d (v.hoisted s) fun es =>
      Agrees s.publicNames blocks.names (fun _ _ => True) (v.exec (s.file.linkage env))
        (evalEach l' es) := by
  obtain ⟨x, init, rfl, ha⟩ := Declarator.exists_of_isArithmetic ha
  obtain ⟨hx, hinit⟩ := Bool.and_eq_true_iff.mp hscoped
  obtain ⟨hout, hvariable⟩ : x.name ∉ blocks.names.flatten ∧ x.name ∈ s.file.variableNames := by
    simpa [Pattern.ident?] using hx
  have htells : s.Tells blocks.names x := hd x (List.mem_singleton_self _) _ hout
  have hvariable' : s.file.isVariable blocks.names x = true := decide_eq_true (.inr hvariable)
  refine (Makes.hoist _).bind fun _ _ => ?_
  refine (init.lower_agrees hl true d ha hinit ht).bind fun value hvalue => ?_
  refine (Makes.guardPatternDepth s 0).map fun _ _ => ?_
  have heval : evalEach l' [s.bindingAssignment x value] = (do
      let v ← value.eval l'
      l'.writeOut (s.exportNames x) x.name v) := by
    have hassign : (s.bindingAssignment x value).eval l' = _ :=
      s.eval_published_assign hl.exporter rfl .plain value
    simp [evalEach, hassign, Run.assign, AssignOp.binary?]
  rw [heval]
  refine .bind hvalue fun v v' hv => ?_
  rw [hv rfl]
  exact s.agrees_written hl htells hvariable' v

theorem hoistedDeclarators_agrees (hl : s.Linked env l') (d : Nat) : (vs : List Declarator) →
    vs.all (·.isArithmetic) = true → vs.all (·.isScoped s.file blocks.names true) = true →
    s.TellsDeclared (vs.flatMap (·.target.boundIdents)) →
    s.TellsAll (declaratorsUses vs (blocks ++ [s.file.bindings]) d) →
    Makes d (hoistedDeclarators s vs) fun es =>
      Agrees s.publicNames blocks.names (fun _ _ => True)
        (execDeclarators (s.file.linkage env) vs) (evalEach l' es)
  | [], _, _, _, _ => .pure (.pure trivial)
  | v :: vs, ha, hscoped, hd, ht => by
    rw [List.all_cons, Bool.and_eq_true] at ha hscoped
    obtain ⟨hdv, hdvs⟩ := Setting.tellsDeclared_append.mp hd
    obtain ⟨htv, htvs⟩ := s.tellsAll_append.mp ht
    refine (v.hoisted_agrees hl d ha.1 hscoped.1 hdv htv).bind fun es hes => ?_
    refine (hoistedDeclarators_agrees hl d vs ha.2 hscoped.2 hdvs htvs).map fun es' hes' => ?_
    rw [evalEach_append]
    exact .bind hes fun _ _ _ => hes'

/-- A declaration that a block keeps declares the same name, and writes the same. -/
theorem Declarator.lower_agrees (hl : s.Linked env l') {v : Declarator} (d : Nat)
    (ha : v.isArithmetic = true) (hscoped : v.isScoped s.file blocks.names false = true)
    (ht : s.TellsAll (v.uses (blocks ++ [s.file.bindings]) d)) :
    Makes d (v.lower s) fun v' => v'.target = v.target ∧
      Agrees s.publicNames blocks.names (fun _ _ => True) (v.exec (s.file.linkage env))
        (v'.exec l') := by
  obtain ⟨x, init, rfl, ha⟩ := Declarator.exists_of_isArithmetic ha
  obtain ⟨hx, hinit⟩ := Bool.and_eq_true_iff.mp hscoped
  have hin : x.name ∈ blocks.names.flatten := by simpa [Pattern.ident?] using hx
  refine (Makes.pure (Q := (· = .ident x)) rfl).bind ?_
  rintro _ rfl
  have hvalue : Makes d (lowerExpr? s (some init)) fun init' => ∃ value, init' = some value ∧
      Agrees s.publicNames blocks.names (fun v v' => v' = v) (init.eval (s.file.linkage env))
        (value.eval l') :=
    (init.lower_agrees hl true d ha hinit ht).map fun value h => ⟨value, rfl, h.mono fun _ _ h => h rfl⟩
  refine hvalue.map ?_
  rintro _ ⟨value, rfl, hvalue⟩
  refine ⟨rfl, .bind hvalue fun v v' hv => ?_⟩
  have hwrite : Agrees s.publicNames blocks.names (fun _ _ => True)
      ((s.file.linkage env).write x.name v)
      (l'.writeOut (namesAt s.publicNames blocks.names x.name) x.name v) :=
    agrees_write (.inl hin) hl.outer v
  rw [namesAt, if_pos hin, Linkage.writeOut_nil] at hwrite
  rw [hv]
  exact hwrite

theorem lowerDeclarators_agrees (hl : s.Linked env l') (d : Nat) : (vs : List Declarator) →
    vs.all (·.isArithmetic) = true → vs.all (·.isScoped s.file blocks.names false) = true →
    s.TellsAll (declaratorsUses vs (blocks ++ [s.file.bindings]) d) →
    Makes d (lowerDeclarators s vs) fun vs' => vs'.map (·.target) = vs.map (·.target) ∧
      Agrees s.publicNames blocks.names (fun _ _ => True)
        (execDeclarators (s.file.linkage env) vs) (execDeclarators l' vs')
  | [], _, _, _ => .pure ⟨rfl, .pure trivial⟩
  | v :: vs, ha, hscoped, ht => by
    rw [List.all_cons, Bool.and_eq_true] at ha hscoped
    obtain ⟨htv, htvs⟩ := s.tellsAll_append.mp ht
    refine (v.lower_agrees hl d ha.1 hscoped.1 htv).bind fun v' ⟨htarget, hv⟩ => ?_
    refine (lowerDeclarators_agrees hl d vs ha.2 hscoped.2 htvs).map fun vs' ⟨htargets, hvs⟩ => ?_
    exact ⟨by rw [List.map_cons, List.map_cons, htarget, htargets], .bind hv fun _ _ _ => hvs⟩

/-- A list that stays one is of the same kind and declares the same identifiers. -/
theorem VarList.lower_agrees (hl : s.Linked env l') {list : VarList} (d : Nat)
    (ha : list.isArithmetic = true) (hscoped : list.isScoped s.file blocks.names false = true)
    (ht : s.TellsAll (list.uses (blocks ++ [s.file.bindings]) d)) :
    Makes d (list.lower s) fun list' =>
      (list'.kind = list.kind ∧ list'.boundIdents = list.boundIdents) ∧
      Agrees s.publicNames blocks.names (fun _ _ => True)
        (execDeclarators (s.file.linkage env) list.declarators)
        (execDeclarators l' list'.declarators) := by
  obtain ⟨kind, vs⟩ := list
  refine (lowerDeclarators_agrees hl d vs ha hscoped ht).map fun vs' ⟨htargets, hvs⟩ => ?_
  have hbound : ∀ vs : List Declarator, vs.flatMap (·.target.boundIdents) =
      (vs.map (·.target)).flatMap (·.boundIdents) := fun vs => by rw [List.flatMap_map]
  exact ⟨⟨rfl, by rw [VarList.boundIdents, hbound, htargets, ← hbound]; rfl⟩, hvs⟩

/-! ## Heads of loops -/

theorem VarList.lexicalBindings_congr {list list' : VarList} (isExported : Bool)
    (hkind : list'.kind = list.kind) (hbound : list'.boundIdents = list.boundIdents) :
    list'.lexicalBindings isExported = list.lexicalBindings isExported := by
  rw [lexicalBindings, hkind, hbound, lexicalBindings]

theorem VarKind.eq_var_iff (kind : VarKind) : (kind == .var) = !kind.isBlockScoped := by
  cases kind <;> rfl

/-- The head of a counting loop opens the same scope when it is lowered, and writes the same. -/
theorem ForInit.lower_agrees (hl : s.Linked env l') {place : Place} (hplace : place.hoistsVars = true)
    {init : ForInit} (d : Nat) (ha : init.isArithmetic = true)
    (hscoped : init.isScoped s.file blocks.names = true)
    (hd : s.TellsDeclared (init.varBindings.map (·.ident)))
    (ht : s.TellsAll (init.uses (blocks ++ [s.file.bindings]) d)) :
    Makes d (init.lower s place) fun init' =>
      (init'.isLexical = init.isLexical ∧ init'.lexicalNames = init.lexicalNames) ∧
      Agrees s.publicNames blocks.names (fun _ _ => True) (init.exec (s.file.linkage env))
        (init'.exec l') := by
  cases init with
  | absent => exact .pure ⟨⟨rfl, rfl⟩, .pure trivial⟩
  | expr e =>
    exact (e.lower_agrees hl false d ha hscoped ht).map fun e' he =>
      ⟨⟨rfl, rfl⟩, .bind he fun _ _ _ => .pure trivial⟩
  | var list =>
    have hkind := list.kind.eq_var_iff
    rw [ForInit.isScoped, hkind] at hscoped
    rw [ForInit.lower.eq_def]
    dsimp only
    rw [hplace, Bool.true_and, hkind]
    cases hblock : list.kind.isBlockScoped with
    | true =>
      rw [hblock] at hscoped
      refine (list.lower_agrees hl d ha hscoped ht).map ?_
      rintro list' ⟨⟨hkind', hbound⟩, hlist⟩
      refine ⟨⟨?_, ?_⟩, hlist⟩
      · rw [isLexical, isLexical, hkind']
      · rw [ForInit.lexicalNames, lexicalBindings, list.lexicalBindings_congr false hkind' hbound]
        rfl
    | false =>
      rw [hblock] at hscoped
      have hidents : list.boundIdents = (list.varBindings false).map (·.ident) := by
        rw [VarList.varBindings, hblock, if_neg Bool.false_ne_true, map_ident_bindingsOf]
      have hnone : list.lexicalBindings false = [] := by
        rw [VarList.lexicalBindings, hblock, if_neg Bool.false_ne_true]
      have hhead : (ForInit.var list).isLexical = false ∧ (ForInit.var list).lexicalNames = [] :=
        ⟨hblock, by rw [ForInit.lexicalNames, lexicalBindings, hnone]; rfl⟩
      rw [hhead.1, hhead.2]
      have hd' : s.TellsDeclared list.boundIdents := by
        rw [hidents]
        exact hd
      obtain ⟨kind, vs⟩ := list
      refine (hoistedDeclarators_agrees hl d vs ha hscoped hd' ht).bind fun es hes => ?_
      cases he : Expr.ofList es with
      | none =>
        obtain rfl := Expr.ofList_eq_none he
        exact .pure ⟨⟨rfl, rfl⟩, hes⟩
      | some e =>
        refine .pure ⟨⟨rfl, rfl⟩, ?_⟩
        rw [← eval_ofList he] at hes
        exact hes

end declarations
end RegisterForm
