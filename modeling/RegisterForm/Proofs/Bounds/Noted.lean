import RegisterForm.Proofs.Bounds.TopLevel
import RegisterForm.Proofs.Export.Everywhere
import RegisterForm.Proofs.Registration.Clauses
/-!
# Noted names

A write is published under names that the interface records, or under the variable's own name.
Either way the lowering of the statement that exports the variable notes the name, unless it is
`default`. Only an import assignment whose entity is no value exports a name without noting it.
-/
namespace RegisterForm
open NameTable

/-! ## Exported declarations -/

theorem ImportClause.isExported_bindingsOf {c : ImportClause} {d : NodeId} {isTypeOnly : Bool}
    {b : Binding} (hb : b ∈ c.bindingsOf d isTypeOnly) : b.roles.isExported = false := by
  unfold ImportClause.bindingsOf at hb
  rcases List.mem_append.mp hb with hb | hb
  · obtain ⟨x, -, rfl⟩ := List.mem_map.mp hb
    rfl
  · split at hb
    · cases hb
    · obtain rfl := List.mem_singleton.mp hb
      rfl
    · obtain ⟨spec, -, rfl⟩ := List.mem_map.mp hb
      rfl

/-- What a statement exports is recorded, save for an import assignment without a value. -/
theorem Stmt.recorded_of_binding (t : NameTable) {st : Stmt} (hflat : AllInner st.visits.tail)
    {b : Binding} (hb : b ∈ st.moduleBindings) (he : b.roles.isExported = true) :
    (b.ident.id, st.exportName b.ident.name) ∈ st.recorded t ∨
      ∃ site kind value, st = .importEquals site true b.ident kind value ∧
        t.importEqualsIsValue kind value = false := by
  have hplain : st.isModuleSyntax = false → b ∈ st.varBindings → False := by
    intro hst hvar
    have hinner : AllInner st.visits := by
      rw [st.visits_cons, allInner_cons]
      exact ⟨by simp [Visit.isInner, hst], hflat⟩
    rw [((st.declares_varBindings).plain hinner b hvar).1] at he
    cases he
  cases st with
  | var modifiers list =>
    have hlist : modifiers.isExported = true ∧ b.ident ∈ list.boundIdents := by
      rcases List.mem_append.mp hb with hb | hb
      · obtain ⟨x, hx, rfl⟩ := List.mem_map.mp (List.mem_ite_nil_left.mp hb).2
        exact ⟨he, hx⟩
      · simp only [Stmt.lexicalBindings, VarList.lexicalBindings, List.mem_ite_nil_right] at hb
        obtain ⟨x, hx, rfl⟩ := List.mem_map.mp hb.2
        exact ⟨he, hx⟩
    refine .inl ?_
    rw [Stmt.recorded, if_pos hlist.1]
    exact List.mem_map_of_mem hlist.2
  | function modifiers f =>
    obtain ⟨x, hx, rfl⟩ := List.mem_map.mp (show b ∈ bindingsOf _ f.name.toList from hb)
    refine .inl ?_
    rw [Stmt.recorded, if_pos he]
    exact List.mem_map_of_mem hx
  | classDecl modifiers c =>
    obtain ⟨x, hx, rfl⟩ := List.mem_map.mp (show b ∈ bindingsOf _ c.name.toList from hb)
    refine .inl ?_
    rw [Stmt.recorded, if_pos he]
    exact List.mem_map_of_mem hx
  | importEquals site isExported name kind value =>
    obtain rfl := List.mem_singleton.mp (show b ∈ [_] from hb)
    obtain rfl : isExported = true := he
    cases hvalue : t.importEqualsIsValue kind value with
    | false => exact .inr ⟨site, kind, value, rfl, hvalue⟩
    | true => exact .inl (by simp [Stmt.recorded, hvalue, Stmt.exportName])
  | importFrom site clause specifier isTypeOnly =>
    obtain ⟨c, -, hb⟩ := List.mem_flatMap.mp (show b ∈ clause.toList.flatMap _ from hb)
    rw [ImportClause.isExported_bindingsOf hb] at he
    cases he
  | ambient name isExported =>
    obtain rfl := List.mem_singleton.mp (show b ∈ [_] from hb)
    cases he
  | exportFrom | exportValue => cases hb
  | _ => exact (hplain rfl ((List.mem_append.mp hb).resolve_right List.not_mem_nil)).elim

/-- A statement with a `var` exports it under its own name. -/
theorem Stmt.exportName_of_var {st : Stmt} {b : Binding} (hb : b ∈ st.varBindings) (name : String) :
    st.exportName name = name := by
  cases st with
  | function | classDecl => cases hb
  | _ => rfl

/-- What is recorded is noted. -/
theorem Setting.noted_of_recorded (s : Setting) {st : Stmt} {d : NodeId} {name : String}
    (h : (d, name) ∈ st.recorded s.names) : name = "default" ∨ name ∈ s.noted st := by
  have hnamed : ∀ (modifiers : Modifiers) (x? : Option Ident),
      (d, name) ∈ (if modifiers.isExported then
        x?.toList.map fun x => (x.id, Interface.exportNameOf modifiers x.name) else []) →
      name = "default" ∨ name ∈ modifiers.noted x? := by
    intro modifiers x? h
    obtain ⟨he, h⟩ := List.mem_ite_nil_right.mp h
    obtain ⟨x, hx, hpair⟩ := List.mem_map.mp h
    obtain ⟨-, rfl⟩ := Prod.mk.inj hpair
    unfold Interface.exportNameOf Modifiers.noted
    cases modifiers.isDefault with
    | true => exact .inl rfl
    | false =>
      refine .inr ?_
      rw [he]
      exact List.mem_map_of_mem hx
  cases st with
  | var modifiers list =>
    obtain ⟨he, h⟩ := List.mem_ite_nil_right.mp h
    obtain ⟨x, hx, hpair⟩ := List.mem_map.mp h
    obtain ⟨-, rfl⟩ := Prod.mk.inj hpair
    rw [Setting.noted, if_pos he]
    exact .inr (List.mem_map_of_mem hx)
  | function modifiers f => exact hnamed modifiers f.name h
  | classDecl modifiers c => exact hnamed modifiers c.name h
  | importEquals site isExported x kind value =>
    obtain ⟨hvalue, h⟩ := List.mem_ite_nil_right.mp h
    obtain ⟨-, rfl⟩ := Prod.mk.inj (List.mem_singleton.mp h)
    rw [Setting.noted, if_pos hvalue]
    exact .inr (List.mem_singleton_self _)
  | _ => cases h

/-- The name that an import assignment declares. -/
def Stmt.aliasName? : Stmt → Option Ident
  | .importEquals _ _ name _ _ => some name
  | _ => none

/-! ## Writes -/

/-- The identifier stands for what no import assignment of the file declares. -/
def SourceFile.IsNoAlias (file : SourceFile) (x : Ident) : Prop :=
  ∀ st ∈ file.statements, ∀ y ∈ st.aliasName?,
    (ofFile file).ofIdent.lookup x.id ≠ (ofFile file).ofIdent.lookup y.id

/-- No import assignment's name is assigned. -/
def SourceFile.SparesAliases (file : SourceFile) : Prop :=
  ∀ v ∈ file.visits, ∀ x ∈ v.assigned, file.IsNoAlias x

section writes
variable {file : SourceFile} {options : Options} (hw : file.WellNumbered) (hf : file.IsFlat)
  (hd : file.DeclaresOnce)
include hw hf hd

/-- The names of a write are noted or `default`, unless the variable is an exported alias of no
value. -/
theorem noted_of_exportNames {x : Ident} (hx : x ∈ identsIn file.visits) {name : String}
    (hname : name ∈ (Setting.ofFile options (ofFile file) file).1.exportNames x) :
    (name = "default" ∨ name ∈
        file.statements.flatMap (Setting.ofFile options (ofFile file) file).1.noted) ∨
      ∃ site y kind value, .importEquals site true y kind value ∈ file.statements ∧
        y.name = x.name ∧ (ofFile file).importEqualsIsValue kind value = false ∧
          (ofFile file).ofIdent.lookup x.id = (ofFile file).ofIdent.lookup y.id := by
  obtain ⟨symbol, ho, -⟩ := (exportNames_ne_nil_iff hw hf).mp (List.ne_nil_of_mem hname)
  have hcases := (mem_exportNames hw ho hx).mp hname
  set s := (Setting.ofFile options (ofFile file) file).1 with hsetting
  have hnames : s.names = ofFile file := rfl
  clear_value s
  have hrecords : ∀ st ∈ file.statements, ∀ d other, (d, other) ∈ st.recorded (ofFile file) →
      other = "default" ∨ other ∈ file.statements.flatMap s.noted := by
    intro st hst d other hrec
    rw [← hnames] at hrec
    exact (s.noted_of_recorded hrec).imp_right fun hnoted => List.mem_flatMap.mpr ⟨st, hst, hnoted⟩
  rcases hcases with ⟨st, hst, hrec⟩ | hclause | ⟨hnone, ⟨other, hdecl⟩, rfl⟩
  · exact .inl (hrecords st hst _ name hrec)
  · obtain ⟨spec, hspec, hvalue, -, rfl⟩ := (clauseExports_iff hw ho).mp hclause
    obtain ⟨site, specs, hst, hm, -⟩ := mem_exportedSpecifiers.mp hspec
    refine .inl (.inr (List.mem_flatMap.mpr ⟨_, hst, ?_⟩))
    exact List.mem_map_of_mem (List.mem_filter.mpr ⟨hm, hnames ▸ hvalue⟩)
  · obtain ⟨st, hst, b, hb, he, hbx, -⟩ := hdecl
    have hbindings : b ∈ file.bindings := SourceFile.mem_bindings.mpr ⟨st, hst, hb⟩
    obtain ⟨-, id, hl, hs⟩ := symbolOf?_eq_some ho.symbolOf
    obtain ⟨symbol', hs', hname'⟩ := symbol_of_ident hw hx hl
    obtain rfl : symbol' = symbol := Option.some.inj (hs'.symm.trans hs)
    rcases Stmt.recorded_of_binding (ofFile file) (hf st hst) hb he with hrec | halias
    · rcases List.mem_append.mp hb with hvar | hlexical
      · rw [Stmt.exportName_of_var hvar, hbx] at hrec
        exact .inl (hrecords st hst _ _ hrec)
      · -- the only declaration of the name, which records it
        obtain ⟨c, hc, hcx, hdeclaration⟩ := declaration_of_module hw hs ho.scope
        have hall : b ∈ blockLexicalBindings true file.statements :=
          List.mem_flatMap.mpr ⟨st, hst, hlexical⟩
        obtain rfl : c = b := hd.eq_of_name hc hall (hcx.trans (hname'.trans hbx.symm))
        exact ((hnone _).1 ⟨st, hst, hdeclaration ▸ hrec⟩).elim
    · obtain ⟨site, kind, value, rfl, hvalue⟩ := halias
      refine .inr ⟨site, b.ident, kind, value, hst, hbx, hvalue, ?_⟩
      have hin := (ofFile_wf file).lookupIn_of_symbol hs
      rw [ho.scope, hname', ← hbx] at hin
      rw [hl, lookup_of_binding hw hbindings, hin]

/-- What the module assigns to an alias of an entity has noted names, or `default`. -/
theorem noted_of_alias {st : Stmt} (hst : st ∈ file.statements) {x : Ident}
    (hx : (ofFile file).alias? st = some x) {name : String}
    (hname : name ∈ (Setting.ofFile options (ofFile file) file).1.exportNames x) :
    name = "default" ∨ name ∈
      file.statements.flatMap (Setting.ofFile options (ofFile file) file).1.noted := by
  cases st with
  | importEquals site isExported y kind value =>
    cases kind with
    | require => cases hx
    | entity =>
      simp only [NameTable.alias?, Option.ite_none_right_eq_some, Option.some.injEq] at hx
      obtain ⟨hvalue, rfl⟩ := hx
      have hident : y ∈ identsIn file.visits :=
        identsIn_subset (stmt_visits_subset hst) (.head _)
      refine (noted_of_exportNames hw hf hd hident hname).resolve_right ?_
      rintro ⟨site', y', kind', value', hst', hsame, hnone, -⟩
      -- one name, hence one declaration and one statement
      obtain ⟨b, hb, hbname⟩ : ∃ b ∈ (Stmt.importEquals site isExported y .entity
          value).lexicalBindings true, b.ident.name = y.name :=
        ⟨_, List.mem_singleton_self _, rfl⟩
      obtain ⟨b', hb', hbname'⟩ : ∃ b ∈ (Stmt.importEquals site' true y' kind'
          value').lexicalBindings true, b.ident.name = y'.name :=
        ⟨_, List.mem_singleton_self _, rfl⟩
      have hin : b ∈ blockLexicalBindings true file.statements :=
        List.mem_flatMap.mpr ⟨_, hst, hb⟩
      have hin' : b' ∈ blockLexicalBindings true file.statements :=
        List.mem_flatMap.mpr ⟨_, hst', hb'⟩
      obtain rfl : b = b' := hd.eq_of_name (List.mem_append_right _ hin) hin'
        (hbname.trans (hsame.symm.trans hbname'.symm))
      have hstatement := eq_of_mem_flatMap hd.lexical.of_map hst hst' hb hb'
      obtain ⟨-, -, -, rfl, rfl⟩ := Stmt.importEquals.inj hstatement
      rw [hnone] at hvalue
      cases hvalue
  | _ => cases hx

end writes
end RegisterForm
