import RegisterForm.Proofs.Hoist.Module
import RegisterForm.Proofs.Run.Variables
/-!
# What a lowered module sees

A lowered module of arithmetic is run among the variables that the registered function declares and
the holders of other modules. While fewer names are in use than are tried for one, no two modules
share a holder, and no variable of the module is one.
-/
namespace RegisterForm
open NameTable

/-! ## Names of holders -/

/-- The holders have the names that are made up and those of the statements' own identifiers. -/
theorem Dependence.perm_holdersOf (uses : List Dependence) (h : Hoisting) : ∃ made,
    h.supply.Gives made (holdersOf uses h).2.supply ∧
      ((holdersOf uses h).1.map Prod.snd).Perm
        (made ++ (uses.filterMap ownHolder?).map (·.name)) := by
  induction uses using List.reverseRecOn with
  | nil => exact ⟨[], .nothing _, .refl _⟩
  | append_singleton uses d ih =>
    obtain ⟨made, hgives, hperm⟩ := ih
    rw [holdersOf_concat]
    rcases d.enterHolder_cases (holdersOf uses h) with ⟨hderived, henter⟩ | ⟨-, henter⟩
    · have hown : d.ownHolder? = none := by
        by_contra hne
        obtain ⟨x, hx⟩ := Option.ne_none_iff_exists'.mp hne
        rw [isDerived_of_ownHolder? hx] at hderived
        cases hderived
      rw [henter]
      refine ⟨_, hgives.append (.unique _ (.nothing _)), ?_⟩
      rw [List.map_cons, List.filterMap_append, List.filterMap_cons_none hown, List.filterMap_nil,
        List.append_nil, List.append_assoc, List.singleton_append]
      exact (hperm.cons _).trans List.perm_middle.symm
    · rw [henter]
      refine ⟨made, hgives, ?_⟩
      have hlast : ([d].filterMap ownHolder?).map (·.name) =
          ((d.ownHolder?.map fun x => (d.site.id, x.name)).toList).map Prod.snd := by
        cases hown : d.ownHolder? <;> simp [hown]
      rw [List.map_append, List.filterMap_append, List.map_append, hlast, ← List.append_assoc]
      exact List.perm_append_comm.trans (hperm.append_right _)

variable {file : SourceFile} {options : Options} {lowered : Lowered}

/-- A statement that is held under its own identifier declares it as an import. -/
theorem Stmt.ownHolder_sublist {st : Stmt} (h : st.isClause = true ∨ st.isArithmetic true = true) :
    (st.dependence?.bind Dependence.ownHolder?).toList.Sublist
      (((st.lexicalBindings true).filter (·.roles.isImport)).map (·.ident)) := by
  cases st with
  | importFrom site clause specifier isTypeOnly =>
    unfold dependence?
    dsimp only
    split
    · exact List.nil_sublist _
    · rcases clause with _ | ⟨_ | _, _ | _ | _⟩ <;> first | exact List.nil_sublist _ | exact .refl _
  | importEquals site isExported name kind value =>
    cases kind with
    | require => exact .refl _
    | entity => exact List.nil_sublist _
  | exportFrom site clause specifier isTypeOnly =>
    cases specifier with
    | none => exact List.nil_sublist _
    | some specifier => rcases clause with _ | _ | _ <;> rcases h with h | h <;> cases h
  | _ => exact List.nil_sublist _

/-- The identifiers of a file that hold a module under their own name. -/
def SourceFile.ownHolders (file : SourceFile) : List Ident :=
  (file.statements.filterMap Stmt.dependence?).filterMap Dependence.ownHolder?

theorem Setting.perm_holders (options : Options) (t : NameTable) (file : SourceFile) : ∃ made,
    (Hoisting.ofFile file).supply.Gives ((Setting.ofFile options t file).1.exporter ::
        (Setting.ofFile options t file).1.context :: made)
      (Setting.ofFile options t file).2.supply ∧
      ((Setting.ofFile options t file).1.holders.map Prod.snd).Perm
        (made ++ file.ownHolders.map (·.name)) := by
  obtain ⟨made, hgives, hperm⟩ := Dependence.perm_holdersOf (Interface.ofFile t file).dependences
    (((Hoisting.ofFile file).unique "exports").2.unique "context").2.push
  refine ⟨made, .unique "exports" (.unique "context" hgives), ?_⟩
  rw [SourceFile.ownHolders, ← Interface.dependences_ofFile t]
  exact hperm

namespace SourceFile.IsArithmetic
variable (ha : file.IsArithmetic)
include ha

/-- What holds a module under its own name is declared as an import. -/
theorem ownHolders_sublist :
    file.ownHolders.Sublist ((file.bindings.filter (·.roles.isImport)).map (·.ident)) := by
  have hstmts : ∀ sts : List Stmt, (∀ st ∈ sts, st.isClause = true ∨ st.isArithmetic true = true) →
      ((sts.filterMap Stmt.dependence?).filterMap Dependence.ownHolder?).Sublist
        (((blockLexicalBindings true sts).filter (·.roles.isImport)).map (·.ident)) := by
    intro sts hsts
    induction sts with
    | nil => exact List.nil_sublist _
    | cons st sts ih =>
      obtain ⟨hst, hsts⟩ := List.forall_mem_cons.mp hsts
      have hcons : ((st :: sts).filterMap Stmt.dependence?).filterMap Dependence.ownHolder? =
          (st.dependence?.bind Dependence.ownHolder?).toList ++
            (sts.filterMap Stmt.dependence?).filterMap Dependence.ownHolder? := by
        cases hd : st.dependence? with
        | none => simp [hd]
        | some d => cases ho : d.ownHolder? <;> simp [hd, ho]
      rw [hcons, blockLexicalBindings, List.flatMap_cons, List.filter_append, List.map_append]
      exact (Stmt.ownHolder_sublist hst).append (ih hsts)
  refine (hstmts file.statements ha.fragment).trans (List.Sublist.map _ (List.Sublist.filter _ ?_))
  exact List.sublist_append_right ..

/-- The holders of a module of arithmetic are told apart by their names, and no variable of the
module is one. -/
theorem holders_apart (t : NameTable)
    (hsize : (Setting.ofFile options t file).2.supply.used.size < maxNameAttempts) :
    ((Setting.ofFile options t file).1.holders.map Prod.snd).Nodup ∧
      ∀ x ∈ file.variableNames, x ∉ (Setting.ofFile options t file).1.holders.map Prod.snd := by
  obtain ⟨made, hgives, hperm⟩ := Setting.perm_holders options t file
  obtain ⟨hnodup, hnew⟩ := hgives.fresh hsize
  have hsub := ha.ownHolders_sublist
  have hmade : ∀ b ∈ file.bindings, b.ident.name ∉ made := by
    intro b hb hname
    have htext := SourceFile.mem_texts (SourceFile.ident_mem_visits hb)
    have hused := hnew _ (List.mem_cons_of_mem _ (List.mem_cons_of_mem _ hname))
    rw [(file.isUsed_iff _).mpr htext] at hused
    cases hused
  have himport : ∀ name ∈ file.ownHolders.map (·.name), ∃ b ∈ file.bindings,
      b.ident.name = name ∧ b.roles.isImport = true := by
    intro name hname
    obtain ⟨x, hx, rfl⟩ := List.mem_map.mp hname
    obtain ⟨b, hb, rfl⟩ := List.mem_map.mp (hsub.subset hx)
    obtain ⟨hb, himport⟩ := List.mem_filter.mp hb
    exact ⟨b, hb, rfl, himport⟩
  constructor
  · refine hperm.nodup_iff.mpr (List.nodup_append'.mpr ⟨hnodup.of_cons.of_cons, ?_, ?_⟩)
    · have honce := ha.once.sublist ((List.filter_sublist (p := (·.roles.isImport))).map _)
      rw [show (fun b : Binding => b.ident.name) = Ident.name ∘ Binding.ident from rfl,
        ← List.map_map] at honce
      exact honce.sublist (hsub.map _)
    · intro name hname hheld
      obtain ⟨b, hb, rfl, -⟩ := himport name hheld
      exact hmade b hb hname
  · intro x hx hheld
    obtain ⟨b, hb, rfl, hvariable⟩ := SourceFile.mem_variableNames hx
    rcases List.mem_append.mp (hperm.mem_iff.mp hheld) with hname | hname
    · exact hmade b hb hname
    · obtain ⟨c, hc, hsame, hcimport⟩ := himport _ hname
      obtain rfl := ha.eq_of_name hc hb hsame
      rw [hcimport] at hvariable
      cases hvariable

end SourceFile.IsArithmetic

/-- A holder that is told apart from the others is found by its name. -/
theorem find?_of_lookup {entries : List (NodeId × String)} {d : NodeId} {holder : String}
    (hnodup : (entries.map Prod.snd).Nodup) (h : entries.lookup d = some holder) :
    entries.find? (·.2 == holder) = some (d, holder) := by
  obtain ⟨before, after, rfl, -⟩ := List.lookup_eq_some_iff.mp h
  have hbefore : ∀ e ∈ before, ¬(e.2 == holder) = true := by
    intro e he hsame
    rw [List.map_append, List.map_cons] at hnodup
    refine List.disjoint_of_nodup_append hnodup (List.mem_map_of_mem he) ?_
    rw [beq_iff_eq.mp hsame]
    exact List.mem_cons_self
  rw [List.find?_append, List.find?_eq_none.mpr hbefore]
  simp

/-! ## Declared variables -/

mutual

/-- A statement of arithmetic has no enumerating loops inside. -/
theorem Stmt.singleHeads : (st : Stmt) → (inList : Bool) → st.isArithmetic inList = true →
    SingleHeads st.within
  | .block body, _, h => singleHeads_cons.mpr ⟨nofun, singleHeads_stmts body h⟩
  | .ifThen _ yes, _, h =>
    singleHeads_cons.mpr ⟨nofun, yes.singleHeads false (Bool.and_eq_true_iff.mp h).2⟩
  | .ifElse _ yes no, _, h => by
    obtain ⟨h, hno⟩ := Bool.and_eq_true_iff.mp h
    obtain ⟨-, hyes⟩ := Bool.and_eq_true_iff.mp h
    exact singleHeads_cons.mpr ⟨nofun, singleHeads_append.mpr
      ⟨yes.singleHeads false hyes, no.singleHeads false hno⟩⟩
  | .forLoop _ _ _ body, _, h =>
    singleHeads_cons.mpr ⟨nofun, body.singleHeads false (Bool.and_eq_true_iff.mp h).2⟩
  | .whileLoop _ body, _, h =>
    singleHeads_cons.mpr ⟨nofun, body.singleHeads false (Bool.and_eq_true_iff.mp h).2⟩
  | .expr _, _, _ | .var _ _, _, _ | .empty, _, _ => List.forall_mem_singleton.mpr nofun
  | .function _ _, _, h | .classDecl _ _, _, h | .importFrom _ _ _ _, _, h
  | .importEquals _ _ _ _ _, _, h | .exportFrom _ _ _ _, _, h | .exportValue _ _ _, _, h
  | .ambient _ _, _, h | .forIn _ _ _, _, h | .forOf _ _ _ _, _, h | .doWhile _ _, _, h
  | .tryCatch _ _ _, _, h | .switch _ _, _, h | .labeled _ _, _, h | .withObject _ _, _, h
  | .ret _, _, h | .throw _, _, h | .breakTo _, _, h | .continueTo _, _, h | .debugger, _, h => by
    cases h
termination_by structural st => st

theorem singleHeads_stmts : (sts : List Stmt) → stmtsArithmetic sts = true →
    SingleHeads (stmtsWithin sts)
  | [], _ => List.forall_mem_nil _
  | st :: sts, h =>
    have h := Bool.and_eq_true_iff.mp h
    singleHeads_append.mpr ⟨st.singleHeads true h.1, singleHeads_stmts sts h.2⟩
termination_by structural sts => sts

end

theorem Stmt.singleHeads_clause {st : Stmt} (h : st.isClause = true) : SingleHeads st.within := by
  cases st with
  | importFrom | importEquals | exportFrom => exact List.forall_mem_singleton.mpr nofun
  | _ => cases h

theorem SourceFile.IsArithmetic.singleHeads (ha : file.IsArithmetic) :
    SingleHeads (stmtsWithin file.statements) := by
  have hall := ha.fragment
  generalize file.statements = sts at hall
  induction sts with
  | nil => exact List.forall_mem_nil _
  | cons st sts ih =>
    obtain ⟨hst, hsts⟩ := List.forall_mem_cons.mp hall
    refine singleHeads_append.mpr ⟨?_, ih hsts⟩
    rcases hst with hclause | harithmetic
    · exact Stmt.singleHeads_clause hclause
    · exact st.singleHeads true harithmetic

/-- The registered function declares the variables of the module. -/
theorem variableNames_subset (hw : file.WellNumbered) (ha : file.IsArithmetic)
    (hl : lower options (ofFile file) file = .ok lowered) :
    file.variableNames ⊆ lowered.hoistedVars := by
  intro x hx
  obtain ⟨b, hb, rfl, hvariable⟩ := SourceFile.mem_variableNames hx
  obtain ⟨frame, _, _, _, -, -, hgains, -, hvars, -⟩ := lower_gains ha.singleHeads hl
  obtain ⟨_, -, hown, -⟩ := Setting.hoistedVars_ofFile hw.nodup options
  obtain ⟨_, -, hmem⟩ := hgains.vars
  rw [hvars, hmem]
  refine .inr (.inl (hown (List.mem_map_of_mem ?_)))
  obtain ⟨st, hst, hbst⟩ := SourceFile.mem_bindings.mp hb
  refine List.mem_flatMap.mpr ⟨st, hst, ?_⟩
  have hhoisted := (ha.isOwnVariable hb hvariable).isHoisted
  refine (Stmt.mem_hoisted_of_binding (t := ofFile file) hbst hhoisted).resolve_right fun hname => ?_
  cases st with
  | function => rcases ha.fragment _ hst with h | h <;> cases h
  | _ => cases hname

/-! ## The lowered module -/

/-- The parameter of the registered function that publishes values. -/
def Lowered.exporter? (l : Lowered) : Option String :=
  l.statement.factory?.bind fun f => f.params.head?.bind fun p => p.pattern.ident?.map (·.name)

/-- What a lowered module sees: the variables that the registered function declares, and the other
modules in their holders. -/
def Setting.linkage (s : Setting) (lowered : Lowered) (env : ForeignValues) : Linkage where
  outer := lowered.hoistedVars
  foreign writes holder property :=
    (s.holders.find? (·.2 == holder)).map fun entry => env writes entry.1 property
  exporter := lowered.exporter?

theorem linked_ofFile (hw : file.WellNumbered) (hf : file.IsFlat) (ha : file.IsArithmetic)
    (hsize : (Setting.ofFile options (ofFile file) file).2.supply.used.size < maxNameAttempts)
    (hl : lower options (ofFile file) file = .ok lowered) (env : ForeignValues) :
    (Setting.ofFile options (ofFile file) file).1.Linked env
      ((Setting.ofFile options (ofFile file) file).1.linkage lowered env) := by
  obtain ⟨hnodup, hapart⟩ := ha.holders_apart (ofFile file) hsize
  refine ⟨hf, ha.once, Setting.holdsImports_ofFile options hf, variableNames_subset hw ha hl, ?_, ?_,
    ?_⟩
  · obtain ⟨groups, execute, p, -, rfl⟩ := lower_eq_ok hl
    simp [Setting.linkage, Lowered.exporter?, Setting.factory?_assemble, Param.ofName,
      Param.ofPattern, Pattern.ident?, Ident.synthetic]
  · intro d holder hlookup writes property
    exact congrArg (Option.map _) (find?_of_lookup hnodup hlookup)
  · intro x hx writes
    have hnone : (Setting.ofFile options (ofFile file) file).1.holders.find? (·.2 == x) = none := by
      rw [List.find?_eq_none]
      intro e he hsame
      exact hapart x hx (beq_iff_eq.mp hsame ▸ List.mem_map_of_mem he)
    exact congrArg (Option.map _) hnone

end RegisterForm
