import RegisterForm.Proofs.Run.Held
import RegisterForm.Proofs.Run.Rounds
import RegisterForm.Proofs.Run.Statement
/-!
# Lowered modules run like their sources

A module of arithmetic and the body that is registered for it run alike: within as many rounds of
each loop they write the same values to the same variables in the same order, and the body publishes
each value that is written to an exported variable under the names that it is exported under.
-/
namespace RegisterForm
open Lowering NameTable

/-! ## Export clauses -/

section clauses
variable {s : Setting} {env : ForeignValues} {l' : Linkage}

/-- What a clause exports by value is a variable of the module, unless it is imported. -/
def Setting.ExportsVariable (s : Setting) (spec : ExportSpecifier) : Prop :=
  s.names.specifierIsValue spec = true → s.names.importOf? spec.source = none →
    spec.source.id.isSynthetic = false ∧ spec.source.name ∈ s.file.variableNames ∧
      spec.exportedName ∈ s.publicNames spec.source.name

/-- Publishing what a variable holds is a publication more in the record. -/
theorem agrees_publish (hl : s.Linked env l') {x : Ident} {name : String}
    (hreal : x.id.isSynthetic = false) (hx : x.name ∈ s.file.variableNames)
    (hname : name ∈ s.publicNames x.name) :
    Agrees s.publicNames [] (fun _ _ => True) (pure () : Run Unit)
      ((s.publish name (.ident x)).eval l') := by
  intro m m' hm
  have hfind : m'.find? x.name = none := by
    rw [hm.find?, hm.find?_eq_none List.not_mem_nil]
  have hread : (l'.read x.name).run m' = some (currentValue x.name m'.events, m') := by
    simp only [Linkage.read, StateT.run, hfind, hl.own _ hx, if_pos (hl.outer hx)]
  refine ⟨(), m, currentValue x.name m'.events,
    { m' with events := .published name (currentValue x.name m'.events) :: m'.events }, rfl, ?_,
    ⟨hm.blocks, hm.scopes, ?_⟩, trivial⟩
  · rw [s.eval_publish hl.exporter, Setting.eval_ident hreal, StateT.run_bind, hread]
    rfl
  · rw [hm.events.currentValue]
    exact .clause x.name name hname hm.events

/-- The statements run to their end and write nothing. -/
def Setting.OnlyPublishes (s : Setting) (l' : Linkage) (sts : List Stmt) : Prop :=
  ∀ rounds, Agrees s.publicNames [] (fun _ ended => ended = true) (pure () : Run Unit)
    (execStmts l' rounds sts)

theorem Setting.OnlyPublishes.nil : s.OnlyPublishes l' [] := fun _ => .pure rfl

theorem Setting.OnlyPublishes.append {sts sts' : List Stmt} (h : s.OnlyPublishes l' sts)
    (h' : s.OnlyPublishes l' sts') : s.OnlyPublishes l' (sts ++ sts') := by
  intro rounds
  rw [execStmts_append]
  refine .after (h rounds) fun ended hended => ?_
  rw [if_pos hended]
  exact h' rounds

theorem exportSpecifier_agrees (hl : s.Linked env l') {spec : ExportSpecifier}
    (hspec : s.ExportsVariable spec) (d : Nat) :
    Makes d (exportSpecifier s spec) (s.OnlyPublishes l') := by
  unfold exportSpecifier
  cases hvalue : s.names.specifierIsValue spec with
  | false => exact .pure .nil
  | true =>
    refine (Makes.addExportedName _).bind fun _ _ => ?_
    cases himport : s.names.importOf? spec.source with
    | some origin => exact .pure .nil
    | none =>
      obtain ⟨hreal, hx, hname⟩ := hspec hvalue himport
      rw [if_neg (by simp)]
      split
      · exact (Makes.addFunctionExport _).bind fun _ _ => .pure .nil
      · refine .pure fun rounds => ?_
        rw [execStmts_singleton]
        exact .after (agrees_publish hl hreal hx hname) fun _ _ => .pure rfl

theorem exportSpecifiers_agrees (hl : s.Linked env l') (d : Nat) : (specs : List ExportSpecifier) →
    (∀ spec ∈ specs, s.ExportsVariable spec) →
    Makes d (exportSpecifiers s specs) (s.OnlyPublishes l')
  | [], _ => .pure .nil
  | spec :: specs, hspecs => by
    obtain ⟨hspec, hspecs⟩ := List.forall_mem_cons.mp hspecs
    refine (exportSpecifier_agrees hl hspec d).bind fun sts hsts => ?_
    exact (exportSpecifiers_agrees hl d specs hspecs).map fun sts' hsts' => hsts.append hsts'

theorem Stmt.exec_clause {l : Linkage} {st : Stmt} (h : st.isClause = true) (rounds : Nat) :
    st.exec l rounds = pure true := by
  cases st with
  | importFrom => rfl
  | importEquals _ _ _ kind => cases kind <;> first | rfl | cases h
  | exportFrom _ clause specifier =>
    cases specifier with
    | none => rfl
    | some specifier => rcases clause with _ | _ | _ <;> cases h
  | _ => cases h

/-- Imports and clauses run nothing, and what they are lowered to writes nothing. -/
theorem Stmt.clause_agrees (hl : s.Linked env l') {st : Stmt} (h : st.isClause = true)
    (hspecs : ∀ site specs, st = .exportFrom site (some (.named specs)) none false →
      ∀ spec ∈ specs, s.ExportsVariable spec) (d : Nat) :
    Makes d (st.lower s .topLevel) fun sts' => s.RunsLike env l' [] .topLevel [st] sts' := by
  have hlike : ∀ sts', s.OnlyPublishes l' sts' → s.RunsLike env l' [] .topLevel [st] sts' := by
    refine fun sts' hsts' => ⟨fun rounds => ?_, fun htop => absurd rfl htop⟩
    rw [execStmts_singleton, Stmt.exec_clause h, ← bind_pure (execStmts l' rounds sts')]
    exact .after (hsts' rounds) fun _ hended => .pure hended
  have hnothing := hlike [] .nil
  cases st with
  | importFrom => exact .deeper fun _ => (Makes.hoist _).map fun _ _ => hnothing
  | importEquals site isExported name kind value =>
    cases kind with
    | entity => cases h
    | require =>
      refine .deeper fun _ => (Makes.hoist _).bind fun _ _ => ?_
      cases isExported with
      | true => exact (Makes.addExportedName _).bind fun _ _ => .pure hnothing
      | false => exact .pure hnothing
  | exportFrom site clause specifier isTypeOnly =>
    refine .deeper fun _ => ?_
    rw [if_pos rfl]
    split
    · exact (exportSpecifiers_agrees hl (d + 1) _ (hspecs site _ rfl)).mono hlike
    · exact .pure hnothing
  | _ => cases h

end clauses

/-! ## The statements of the module -/

section statements
variable {s : Setting} {env : ForeignValues} {l' : Linkage}

/-- Each statement of the module is a clause or one of arithmetic, with no block around it. -/
theorem lowerModule_agrees (hl : s.Linked env l') : (sts : List Stmt) → (d : Nat) →
    (∀ st ∈ sts, st.isClause = true ∨ st.isArithmetic true = true) →
    stmtsScoped s.file .topLevel [] sts = true →
    (∀ st ∈ sts, s.TellsDeclared (st.moduleBindings.map (·.ident))) →
    s.TellsAll (stmtsUses sts [s.file.bindings] d) →
    (∀ site specs, .exportFrom site (some (.named specs)) none false ∈ sts →
      ∀ spec ∈ specs, s.ExportsVariable spec) →
    Makes d (lowerStmts s .topLevel sts) fun sts' => s.RunsLike env l' [] .topLevel sts sts'
  | [], _, _, _, _, _, _ => .pure .nil
  | st :: sts, d, ha, hscoped, hd, ht, hspecs => by
    obtain ⟨hast, hasts⟩ := List.forall_mem_cons.mp ha
    obtain ⟨hsst, hssts⟩ := Bool.and_eq_true_iff.mp hscoped
    obtain ⟨hdst, hdsts⟩ := List.forall_mem_cons.mp hd
    obtain ⟨htst, htsts⟩ := s.tellsAll_append.mp ht
    have hst : Makes d (st.lower s .topLevel) fun sts' =>
        s.RunsLike env l' [] .topLevel [st] sts' := by
      rcases hast with hclause | harithmetic
      · exact Stmt.clause_agrees hl hclause
          (fun site specs he => hspecs site specs (he ▸ List.mem_cons_self)) d
      · obtain ⟨hvar, hlexical⟩ := Setting.tellsDeclared_bindings.mp hdst
        have hinside : st.isScoped s.file .topLevel (Scopes.names []) = true := hsst
        exact (st.lower_agrees hl rfl true d harithmetic hinside hvar
          (fun _ => hlexical) htst).mono fun _ h => h.1
    refine hst.bind fun sts' hst => ?_
    refine (lowerModule_agrees hl sts d hasts hssts hdsts htsts fun site specs hmem =>
      hspecs site specs (List.mem_cons_of_mem _ hmem)).map fun sts'' hsts => ?_
    exact .cons hst hsts

end statements

/-- `import { base } from "m"; export let total = 0;
for (let i = 0; i < 3; i++) { let total = i; total += base; }
while (total < 5) total = total++ + base; export { total as sum };` -/
def countingModule : SourceFile where
  id := .numbered 40
  name := "counting.ts"
  statements := [
    .importFrom ⟨.numbered 30, {}⟩
      (some ⟨none, some (.named [⟨none, ⟨.numbered 0, "base"⟩, false⟩])⟩) (.ofString "m") false,
    .var { isExported := true } ⟨.let, [⟨.ident ⟨.numbered 1, "total"⟩, some (.ofNumber "0")⟩]⟩,
    .forLoop (.var ⟨.let, [⟨.ident ⟨.numbered 2, "i"⟩, some (.ofNumber "0")⟩]⟩)
      (some (.binary .lt (.ident ⟨.numbered 3, "i"⟩) (.ofNumber "3")))
      (some (.update .increment false (.ident ⟨.numbered 4, "i"⟩)))
      (.block [
        .var {} ⟨.let, [⟨.ident ⟨.numbered 5, "total"⟩, some (.ident ⟨.numbered 6, "i"⟩)⟩]⟩,
        .expr (.assign .add (.ident ⟨.numbered 7, "total"⟩) (.ident ⟨.numbered 8, "base"⟩))]),
    .whileLoop (.binary .lt (.ident ⟨.numbered 9, "total"⟩) (.ofNumber "5"))
      (.expr (.assignTo (.ident ⟨.numbered 10, "total"⟩)
        (.binary .add (.update .increment false (.ident ⟨.numbered 11, "total"⟩))
          (.ident ⟨.numbered 12, "base"⟩)))),
    .exportFrom ⟨.numbered 31, {}⟩
      (some (.named [⟨.numbered 32, ⟨.numbered 13, "total"⟩, some "sum", false⟩])) none false]

end RegisterForm
