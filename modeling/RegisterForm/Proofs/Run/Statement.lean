import RegisterForm.Proofs.Hoist.Lowered
import RegisterForm.Proofs.Run.Declared
/-!
# Lowered statements agree

A statement of arithmetic and what it is lowered to run alike: as many rounds of each loop, with the
same blocks around, they come to the same end, write the same and publish what is written.
-/
namespace RegisterForm
open Lowering

/-! ## One statement or a list -/

section lists
variable {l : Linkage} {rounds : Nat}

theorem execStmts_singleton (st : Stmt) : execStmts l rounds [st] = st.exec l rounds := by
  have hlast : ∀ ended : Bool, (if ended then return true else return false : Run Bool) = pure ended
    | true | false => rfl
  simp only [execStmts, hlast, bind_pure]

theorem execStmts_append (sts sts' : List Stmt) : execStmts l rounds (sts ++ sts') = (do
    if ← execStmts l rounds sts then execStmts l rounds sts' else return false) := by
  induction sts with
  | nil => simp [execStmts]
  | cons st sts ih =>
    rw [List.cons_append, execStmts, ih, execStmts, bind_assoc]
    congr 1
    funext ended
    cases ended <;> simp

/-- One statement for a slot that holds just one runs like the list. -/
theorem exec_ofList : (sts : List Stmt) → sts.length ≤ 1 →
    (Stmt.ofList sts).exec l rounds = execStmts l rounds sts
  | [], _ => rfl
  | [st], _ => (execStmts_singleton st).symm

/-- Assignments that are joined by commas into one statement. -/
theorem execStmts_ofList (es : List Expr) :
    execStmts l rounds ((Expr.ofList es).toList.map .expr) = (do
      evalEach l es
      return true) := by
  cases he : Expr.ofList es with
  | none =>
    obtain rfl := Expr.ofList_eq_none he
    rfl
  | some e =>
    rw [Option.toList_some, List.map_singleton, execStmts_singleton, ← eval_ofList he, bind_assoc]
    rfl

end lists

/-! ## Statements -/

/-- Lowered statements run like those that they are made from, and within a block they declare the
same names. -/
structure Setting.RunsLike (s : Setting) (env : ForeignValues) (l' : Linkage)
    (scopes : List (List String)) (place : Place) (sts sts' : List Stmt) : Prop where
  agrees : ∀ rounds, Agrees s.publicNames scopes (fun b b' => b' = b)
    (execStmts (s.file.linkage env) rounds sts) (execStmts l' rounds sts')
  declares : place ≠ .topLevel → lexicalNames sts' = lexicalNames sts

section statements
variable {s : Setting} {env : ForeignValues} {l' : Linkage} {scopes : List (List String)}
  {place : Place}

namespace Setting.RunsLike

theorem nil : s.RunsLike env l' scopes place [] [] := ⟨fun _ => .pure rfl, fun _ => rfl⟩

theorem cons {st : Stmt} {sts sts' sts'' : List Stmt} (h : s.RunsLike env l' scopes place [st] sts')
    (hs : s.RunsLike env l' scopes place sts sts'') :
    s.RunsLike env l' scopes place (st :: sts) (sts' ++ sts'') where
  agrees rounds := by
    have hst := h.agrees rounds
    rw [execStmts_singleton] at hst
    rw [execStmts_append]
    exact .bind hst fun _ _ hb => .ite hb (hs.agrees rounds) (.pure rfl)
  declares hplace := by
    have hnames : ∀ sts sts' : List Stmt, lexicalNames (sts ++ sts') =
        lexicalNames sts ++ lexicalNames sts' := fun sts sts' => by
      simp [lexicalNames, blockLexicalBindings]
    rw [hnames, h.declares hplace, hs.declares hplace, ← hnames]
    rfl

/-- A statement that is lowered to one. -/
theorem single {st st' : Stmt}
    (hagrees : ∀ rounds, Agrees s.publicNames scopes (fun b b' => b' = b)
      (st.exec (s.file.linkage env) rounds) (st'.exec l' rounds))
    (hdeclares : place ≠ .topLevel → lexicalNames [st'] = lexicalNames [st]) :
    s.RunsLike env l' scopes place [st] [st'] ∧ [st'].length ≤ 1 := by
  refine ⟨⟨fun rounds => ?_, hdeclares⟩, Nat.le_refl _⟩
  rw [execStmts_singleton, execStmts_singleton]
  exact hagrees rounds

/-- The statement inside another one. -/
theorem inner {st : Stmt} {sts' : List Stmt} (h : s.RunsLike env l' scopes place [st] sts')
    (hone : sts'.length ≤ 1) (rounds : Nat) : Agrees s.publicNames scopes (fun b b' => b' = b)
      (st.exec (s.file.linkage env) rounds) ((Stmt.ofList sts').exec l' rounds) := by
  have hst := h.agrees rounds
  rw [execStmts_singleton] at hst
  rw [exec_ofList sts' hone]
  exact hst

end Setting.RunsLike

variable {blocks : Scopes}

/-- A part of a loop that may be missing. -/
theorem lowerExpr?_agrees (hl : s.Linked env l') (d : Nat) : (e : Option Expr) →
    e.all (·.isArithmetic) = true → e.all (·.isScoped s.file blocks.names) = true →
    s.TellsAll (exprUses? e (blocks ++ [s.file.bindings]) d) →
    Makes d (lowerExpr? s e) fun e' =>
      Agrees s.publicNames blocks.names (fun v v' => v' = v) (evalTest (s.file.linkage env) e)
        (evalTest l' e')
  | none, _, _, _ => .pure (.pure rfl)
  | some e, ha, hscoped, ht =>
    (e.lower_agrees hl true d ha hscoped ht).map fun _ he => he.mono fun _ _ h => h rfl

theorem lowerUnused?_agrees (hl : s.Linked env l') (d : Nat) : (e : Option Expr) →
    e.all (·.isArithmetic) = true → e.all (·.isScoped s.file blocks.names) = true →
    s.TellsAll (exprUses? e (blocks ++ [s.file.bindings]) d) →
    Makes d (lowerUnused? s e) fun e' =>
      Agrees s.publicNames blocks.names (fun _ _ => True) (execUpdate (s.file.linkage env) e)
        (execUpdate l' e')
  | none, _, _, _ => .pure (.pure trivial)
  | some e, ha, hscoped, ht =>
    (e.lower_agrees hl false d ha hscoped ht).map fun _ he => .bind he fun _ _ _ => .pure trivial

/-- Only the module itself hoists what is lexical. -/
theorem VarList.lexicalBindings_of_takesApart {list : VarList} (hplace : place ≠ .topLevel)
    (h : place.takesApart list.kind = true) (isExported : Bool) :
    list.lexicalBindings isExported = [] := by
  rw [VarList.lexicalBindings, if_neg]
  intro hblock
  cases place with
  | topLevel => exact hplace rfl
  | function => cases h
  | moduleBlock =>
    rw [Place.takesApart, list.kind.eq_var_iff, hblock] at h
    cases h

/-- A list of declarations becomes assignments where it is hoisted, and stays where it is not. -/
theorem lower_var_agrees (hl : s.Linked env l') {modifiers : Modifiers}
    {list : VarList} (d : Nat) (ha : list.isArithmetic = true)
    (hscoped : list.isScoped s.file blocks.names (place.takesApart list.kind) = true)
    (hd : place.takesApart list.kind = true → s.TellsDeclared list.boundIdents)
    (ht : s.TellsAll (list.uses (blocks ++ [s.file.bindings]) (d + 1))) :
    Makes d ((Stmt.var modifiers list).lower s place) fun sts' =>
      s.RunsLike env l' blocks.names place [.var modifiers list] sts' ∧ sts'.length ≤ 1 := by
  refine .deeper fun _ => ?_
  dsimp only
  cases happ : place.takesApart list.kind with
  | false =>
    rw [happ] at hscoped
    refine (list.lower_agrees hl (d + 1) ha hscoped ht).map fun list' ⟨⟨hkind, hbound⟩, hlist⟩ => ?_
    refine Setting.RunsLike.single (fun _ => .bind hlist fun _ _ _ => .pure rfl) fun _ => ?_
    have hbindings := list.lexicalBindings_congr modifiers.isExported hkind hbound
    simp [lexicalNames, blockLexicalBindings, Stmt.lexicalBindings, hbindings]
  | true =>
    rw [happ] at hscoped
    have hlist : Makes (d + 1) (list.hoisted s) fun es =>
        Agrees s.publicNames blocks.names (fun _ _ => True)
          (execDeclarators (s.file.linkage env) list.declarators) (evalEach l' es) := by
      obtain ⟨kind, vs⟩ := list
      exact hoistedDeclarators_agrees hl (d + 1) vs ha hscoped (hd happ) ht
    have hrest : Makes (d + 1) (do
          let es ← list.hoisted s
          return (Expr.ofList es).toList.map Stmt.expr) fun sts' =>
        s.RunsLike env l' blocks.names place [.var modifiers list] sts' ∧ sts'.length ≤ 1 := by
      refine hlist.map fun es hes => ⟨⟨fun rounds => ?_, fun hplace => ?_⟩, ?_⟩
      · rw [execStmts_singleton, execStmts_ofList]
        exact .bind hes fun _ _ _ => .pure rfl
      · have hnone := VarList.lexicalBindings_of_takesApart hplace happ modifiers.isExported
        rw [lexicalNames, lexicalNames]
        cases Expr.ofList es <;> simp [blockLexicalBindings, Stmt.lexicalBindings, hnone]
      · cases Expr.ofList es <;> simp
    rw [if_pos rfl]
    split
    · exact (Makes.addExportedNames _).bind fun _ _ => hrest
    · exact hrest

mutual

theorem Stmt.lower_agrees (hl : s.Linked env l') {place : Place}
    (hplace : place.hoistsVars = true) {blocks : Scopes} : (st : Stmt) → (inList : Bool) →
    (d : Nat) → st.isArithmetic inList = true → st.isScoped s.file place blocks.names = true →
    s.TellsDeclared (st.varBindings.map (·.ident)) →
    (place = .topLevel → s.TellsDeclared ((st.lexicalBindings true).map (·.ident))) →
    s.TellsAll (st.uses (blocks ++ [s.file.bindings]) d) →
    Makes d (st.lower s place) fun sts' =>
      s.RunsLike env l' blocks.names place [st] sts' ∧ sts'.length ≤ 1
  | .expr e, _, d, ha, hscoped, _, _, ht => .deeper fun _ =>
    (e.lower_agrees hl false (d + 1) ha hscoped ht).map fun e' he =>
      Setting.RunsLike.single (fun _ => .bind he fun _ _ _ => .pure rfl) fun _ => rfl
  | .var modifiers list, inList, d, ha, hscoped, hvar, hlexical, ht => by
    refine lower_var_agrees hl d (Bool.and_eq_true_iff.mp ha).2 hscoped (fun happ => ?_) ht
    rw [← list.map_ident_bindings modifiers.isExported, List.map_append]
    refine Setting.tellsDeclared_append.mpr ⟨hvar, ?_⟩
    by_cases htop : place = .topLevel
    · exact hlexical htop
    · have hnone : list.lexicalBindings modifiers.isExported = [] :=
        VarList.lexicalBindings_of_takesApart htop happ _
      rw [hnone]
      exact nofun
  | .block body, _, d, ha, hscoped, hvar, _, ht => by
    have hinside : stmtsScoped s.file place.inner
        (Scopes.names (blockLexicalBindings false body :: blocks)) body = true := hscoped
    refine .deeper fun _ => (lowerStmts_agrees hl hplace body (d + 1) ha hinside hvar ht).map
      fun body' hbody => Setting.RunsLike.single (fun rounds => ?_) fun _ => rfl
    rw [Stmt.exec_block, Stmt.exec_block, hbody.declares Place.inner_ne_topLevel]
    exact .inBlock (hbody.agrees rounds)
  | .ifThen test yes, _, d, ha, hscoped, hvar, _, ht => by
    obtain ⟨hatest, hayes⟩ := Bool.and_eq_true_iff.mp ha
    obtain ⟨hstest, hsyes⟩ := Bool.and_eq_true_iff.mp hscoped
    obtain ⟨httest, htyes⟩ := s.tellsAll_append.mp ht
    refine .deeper fun _ => ?_
    refine (test.lower_agrees hl true (d + 1) hatest hstest httest).bind fun test' htest => ?_
    refine (yes.lower_agrees hl (Place.hoistsVars_inner hplace) false (d + 1) hayes hsyes hvar
      (fun h => absurd h Place.inner_ne_topLevel) htyes).map fun yes' ⟨hyes, hone⟩ => ?_
    refine Setting.RunsLike.single (fun rounds => ?_) fun _ => rfl
    exact .bind htest fun v v' hv => .ite (congrArg _ (hv rfl)) (hyes.inner hone rounds) (.pure rfl)
  | .ifElse test yes no, _, d, ha, hscoped, hvar, _, ht => by
    obtain ⟨ha, hano⟩ := Bool.and_eq_true_iff.mp ha
    obtain ⟨hatest, hayes⟩ := Bool.and_eq_true_iff.mp ha
    obtain ⟨hscoped, hsno⟩ := Bool.and_eq_true_iff.mp hscoped
    obtain ⟨hstest, hsyes⟩ := Bool.and_eq_true_iff.mp hscoped
    obtain ⟨hvaryes, hvarno⟩ := Setting.tellsDeclared_bindings.mp hvar
    obtain ⟨ht, htno⟩ := s.tellsAll_append.mp ht
    obtain ⟨httest, htyes⟩ := s.tellsAll_append.mp ht
    have hinner := Place.hoistsVars_inner hplace
    refine .deeper fun _ => ?_
    refine (test.lower_agrees hl true (d + 1) hatest hstest httest).bind fun test' htest => ?_
    refine (yes.lower_agrees hl hinner false (d + 1) hayes hsyes hvaryes
      (fun h => absurd h Place.inner_ne_topLevel) htyes).bind fun yes' ⟨hyes, honeYes⟩ => ?_
    refine (no.lower_agrees hl hinner false (d + 1) hano hsno hvarno
      (fun h => absurd h Place.inner_ne_topLevel) htno).map fun no' ⟨hno, honeNo⟩ => ?_
    refine Setting.RunsLike.single (fun rounds => ?_) fun _ => rfl
    exact .bind htest fun v v' hv =>
      .ite (congrArg _ (hv rfl)) (hyes.inner honeYes rounds) (hno.inner honeNo rounds)
  | .whileLoop test body, _, d, ha, hscoped, hvar, _, ht => by
    obtain ⟨hatest, habody⟩ := Bool.and_eq_true_iff.mp ha
    obtain ⟨hstest, hsbody⟩ := Bool.and_eq_true_iff.mp hscoped
    obtain ⟨httest, htbody⟩ := s.tellsAll_append.mp ht
    refine .deeper fun _ => ?_
    refine (test.lower_agrees hl true (d + 1) hatest hstest httest).bind fun test' htest => ?_
    refine (body.lower_agrees hl (Place.hoistsVars_inner hplace) false (d + 1) habody hsbody hvar
      (fun h => absurd h Place.inner_ne_topLevel) htbody).map fun body' ⟨hbody, hone⟩ => ?_
    refine Setting.RunsLike.single (fun rounds => ?_) fun _ => rfl
    exact .repeatWhile (htest.mono fun _ _ h => h rfl) (hbody.inner hone rounds) (.pure trivial) rounds
  | .forLoop init test update body, _, d, ha, hscoped, hvar, _, ht => by
    obtain ⟨ha, habody⟩ := Bool.and_eq_true_iff.mp ha
    obtain ⟨ha, haupdate⟩ := Bool.and_eq_true_iff.mp ha
    obtain ⟨hainit, hatest⟩ := Bool.and_eq_true_iff.mp ha
    obtain ⟨hscoped, hsbody⟩ := Bool.and_eq_true_iff.mp hscoped
    obtain ⟨hscoped, hsupdate⟩ := Bool.and_eq_true_iff.mp hscoped
    obtain ⟨hsinit, hstest⟩ := Bool.and_eq_true_iff.mp hscoped
    obtain ⟨hvarinit, hvarbody⟩ := Setting.tellsDeclared_bindings.mp hvar
    -- the head and the body are run in the block of the head, if that is one
    obtain ⟨inside, hinside, hnames⟩ : ∃ inside : Scopes,
        (blocks ++ [s.file.bindings]).openedIf init.isLexical init.lexicalBindings =
          inside ++ [s.file.bindings] ∧ inside.names = init.around blocks.names := by
      unfold Scopes.openedIf ForInit.around
      cases init.isLexical
      · exact ⟨blocks, rfl, rfl⟩
      · exact ⟨init.lexicalBindings :: blocks, rfl, rfl⟩
    rw [Stmt.uses_forLoop, hinside] at ht
    rw [← hnames] at hsinit hstest hsupdate hsbody
    obtain ⟨ht, htbody⟩ := s.tellsAll_append.mp ht
    obtain ⟨ht, htupdate⟩ := s.tellsAll_append.mp ht
    obtain ⟨htinit, httest⟩ := s.tellsAll_append.mp ht
    refine .deeper fun _ => ?_
    refine (init.lower_agrees hl hplace (d + 1) hainit hsinit hvarinit htinit).bind
      fun init' ⟨⟨hlexical, hdeclares⟩, hinit⟩ => ?_
    refine (lowerExpr?_agrees hl (d + 1) test hatest hstest httest).bind
      fun test' htest => ?_
    refine (lowerUnused?_agrees hl (d + 1) update haupdate hsupdate htupdate).bind
      fun update' hupdate => ?_
    refine (body.lower_agrees hl (Place.hoistsVars_inner hplace) false (d + 1) habody hsbody
      hvarbody (fun h => absurd h Place.inner_ne_topLevel) htbody).map fun body' ⟨hbody, hone⟩ => ?_
    refine Setting.RunsLike.single (fun rounds => ?_) fun _ => rfl
    rw [Stmt.exec_forLoop, Stmt.exec_forLoop, hlexical, hdeclares]
    refine .inBlockIf ?_
    change Agrees s.publicNames (init.around blocks.names) _ _ _
    rw [← hnames]
    exact .bind hinit fun _ _ _ =>
      .repeatWhile htest (hbody.inner hone rounds) hupdate rounds
  | .empty, _, _, _, _, _, _, _ => .deeper fun _ =>
    .pure (Setting.RunsLike.single (fun _ => .pure rfl) fun _ => rfl)
  | .function _ _, _, _, ha, _, _, _, _ | .classDecl _ _, _, _, ha, _, _, _, _
  | .importFrom _ _ _ _, _, _, ha, _, _, _, _ | .importEquals _ _ _ _ _, _, _, ha, _, _, _, _
  | .exportFrom _ _ _ _, _, _, ha, _, _, _, _ | .exportValue _ _ _, _, _, ha, _, _, _, _
  | .ambient _ _, _, _, ha, _, _, _, _ | .forIn _ _ _, _, _, ha, _, _, _, _
  | .forOf _ _ _ _, _, _, ha, _, _, _, _ | .doWhile _ _, _, _, ha, _, _, _, _
  | .tryCatch _ _ _, _, _, ha, _, _, _, _ | .switch _ _, _, _, ha, _, _, _, _
  | .labeled _ _, _, _, ha, _, _, _, _ | .withObject _ _, _, _, ha, _, _, _, _
  | .ret _, _, _, ha, _, _, _, _ | .throw _, _, _, ha, _, _, _, _
  | .breakTo _, _, _, ha, _, _, _, _ | .continueTo _, _, _, ha, _, _, _, _
  | .debugger, _, _, ha, _, _, _, _ => by cases ha
termination_by structural st => st

/-- The statements of a block, which are not those of the module. -/
theorem lowerStmts_agrees (hl : s.Linked env l') {place : Place}
    (hplace : place.hoistsVars = true) {blocks : Scopes} : (sts : List Stmt) → (d : Nat) →
    stmtsArithmetic sts = true → stmtsScoped s.file place.inner blocks.names sts = true →
    s.TellsDeclared ((blockVarBindings sts).map (·.ident)) →
    s.TellsAll (stmtsUses sts (blocks ++ [s.file.bindings]) d) →
    Makes d (lowerStmts s place.inner sts) fun sts' =>
      s.RunsLike env l' blocks.names place.inner sts sts'
  | [], _, _, _, _, _ => .pure .nil
  | st :: sts, d, ha, hscoped, hvar, ht => by
    obtain ⟨hast, hasts⟩ := Bool.and_eq_true_iff.mp ha
    obtain ⟨hsst, hssts⟩ := Bool.and_eq_true_iff.mp hscoped
    obtain ⟨hvarst, hvarsts⟩ := Setting.tellsDeclared_bindings.mp hvar
    obtain ⟨htst, htsts⟩ := s.tellsAll_append.mp ht
    refine (st.lower_agrees hl (Place.hoistsVars_inner hplace) true d hast hsst hvarst
      (fun h => absurd h Place.inner_ne_topLevel) htst).bind fun st' ⟨hst, _⟩ => ?_
    exact (lowerStmts_agrees hl hplace sts d hasts hssts hvarsts htsts).map fun sts' hsts =>
      .cons hst hsts
termination_by structural sts => sts

end

end statements
end RegisterForm
