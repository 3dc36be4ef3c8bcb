import RegisterForm.Proofs.Bounds.Noted
import RegisterForm.Proofs.Hoist.Scope
import RegisterForm.Proofs.Run.Linked
/-!
# Variables of a module of arithmetic

Such a module declares variables and imports, and nothing else. A variable is published under exactly
the names that the module exports it under, and a local clause publishes nothing but variables.
-/
namespace RegisterForm
open NameTable

/-- Declared by `var`, `let` or `const`. -/
structure Binding.IsOwnVariable (b : Binding) : Prop where
  isImport : b.roles.isImport = false
  isHoisted : b.roles.isHoisted = true
  isValue : b.roles.isValue = true

theorem Binding.isOwnVariable_bindingsOf {roles : Roles} {xs : List Ident} {b : Binding}
    (hb : b ∈ bindingsOf roles xs) (himport : roles.isImport = false)
    (hhoisted : roles.isHoisted = true) (hvalue : roles.isValue = true) : b.IsOwnVariable := by
  obtain ⟨x, -, rfl⟩ := List.mem_map.mp hb
  exact ⟨himport, hhoisted, hvalue⟩

theorem ImportClause.imports_bindingsOf {c : ImportClause} {d : NodeId} {isTypeOnly : Bool}
    {b : Binding} (hb : b ∈ c.bindingsOf d isTypeOnly) :
    b.roles.isImport = true ∧ b.origin.isSome = true := by
  unfold ImportClause.bindingsOf at hb
  rcases List.mem_append.mp hb with hb | hb
  · obtain ⟨x, -, rfl⟩ := List.mem_map.mp hb
    exact ⟨rfl, rfl⟩
  · split at hb
    · cases hb
    · obtain rfl := List.mem_singleton.mp hb
      exact ⟨rfl, rfl⟩
    · obtain ⟨spec, -, rfl⟩ := List.mem_map.mp hb
      exact ⟨rfl, rfl⟩

/-- A statement of such a module declares variables or imports. -/
theorem Stmt.binding_cases {st : Stmt} (h : st.isClause = true ∨ st.isArithmetic true = true)
    {b : Binding} (hb : b ∈ st.moduleBindings) :
    b.IsOwnVariable ∨ b.roles.isImport = true ∧ b.origin.isSome = true := by
  rcases List.mem_append.mp hb with hvar | hlexical
  · obtain ⟨isExported, hroles⟩ := st.isVar_varBindings b hvar
    exact .inl ⟨by rw [hroles], by rw [hroles]; rfl, by rw [hroles]; rfl⟩
  · cases st with
    | var modifiers list =>
      refine .inl ?_
      change b ∈ list.lexicalBindings modifiers.isExported at hlexical
      unfold VarList.lexicalBindings at hlexical
      split at hlexical
      · exact Binding.isOwnVariable_bindingsOf hlexical rfl rfl rfl
      · cases hlexical
    | importFrom site clause specifier isTypeOnly =>
      obtain ⟨c, -, hc⟩ := List.mem_flatMap.mp
        (show b ∈ clause.toList.flatMap (·.bindingsOf site.id isTypeOnly) from hlexical)
      exact .inr (ImportClause.imports_bindingsOf hc)
    | importEquals site isExported name kind value =>
      obtain rfl := List.mem_singleton.mp hlexical
      cases kind with
      | require => exact .inr ⟨rfl, rfl⟩
      | entity => rcases h with h | h <;> cases h
    | function | classDecl | ambient => rcases h with h | h <;> cases h
    | _ => cases hlexical

variable {file : SourceFile} {options : Options} {b : Binding}

namespace SourceFile.IsArithmetic
variable (ha : file.IsArithmetic)
include ha

theorem binding_cases (hb : b ∈ file.bindings) :
    b.IsOwnVariable ∨ b.roles.isImport = true ∧ b.origin.isSome = true := by
  obtain ⟨st, hst, hb⟩ := SourceFile.mem_bindings.mp hb
  exact Stmt.binding_cases (ha.fragment st hst) hb

theorem eq_of_name {c : Binding} (hb : b ∈ file.bindings) (hc : c ∈ file.bindings)
    (h : b.ident.name = c.ident.name) : b = c := by
  have hfound := SourceFile.binding?_eq ha.once hb
  rw [h, SourceFile.binding?_eq ha.once hc] at hfound
  exact (Option.some.inj hfound).symm

theorem isOwnVariable (hb : b ∈ file.bindings) (himport : b.roles.isImport = false) :
    b.IsOwnVariable :=
  (ha.binding_cases hb).resolve_right fun h => by
    rw [himport] at h
    cases h.1

end SourceFile.IsArithmetic

/-! ## Names of publications -/

section publications
variable (hw : file.WellNumbered) (hf : file.IsFlat) (ha : file.IsArithmetic)

theorem Setting.publicNames_of_binding {s : Setting}
    (honce : (s.file.bindings.map (·.ident.name)).Nodup) (hb : b ∈ s.file.bindings) :
    s.publicNames b.ident.name = s.exportNames b.ident := by
  rw [publicNames, SourceFile.binding?_eq honce hb]
  rfl

include hw hf ha

/-- The symbol of a variable. -/
theorem isOwn_of_variable (hb : b ∈ file.bindings) (himport : b.roles.isImport = false) :
    ∃ symbol, (ofFile file).IsOwn b.ident symbol ∧ symbol.declaration = b.ident.id := by
  obtain ⟨isNamed, hsymbol⟩ := symbolOf?_binding hw ha.once hb
  obtain ⟨st, hst, hbst⟩ := SourceFile.mem_bindings.mp hb
  refine ⟨_, ⟨hsymbol, Symbol.marked_scope _ _, ?_, ?_⟩, Symbol.marked_declaration _ _⟩
  · rw [Symbol.marked_isValue]
    exact (ha.isOwnVariable hb himport).isValue
  · rw [Symbol.marked_origin]
    exact Stmt.origin_of_not_import hbst himport (hf st hst)

/-- A variable is published under the names that the module exports it under. -/
theorem mem_publicNames_of_variable (hb : b ∈ file.bindings) (himport : b.roles.isImport = false)
    (exported : String) :
    exported ∈ (Setting.ofFile options (ofFile file) file).1.publicNames b.ident.name ↔
      file.ExportsAs b.ident exported := by
  obtain ⟨symbol, ho, hdeclaration⟩ := isOwn_of_variable hw hf ha hb himport
  have hident := SourceFile.ident_mem_visits hb
  have hrecords : ∀ other, file.Records symbol.declaration other ↔
      file.DeclaresExport b.ident.name other := by
    refine fun other => ⟨declaresExport_of_records hw ho hident, ?_⟩
    rintro ⟨st, hst, c, hc, he, hname, rfl⟩
    obtain rfl : c = b := ha.eq_of_name (SourceFile.mem_bindings.mpr ⟨st, hst, hc⟩) hb hname
    refine ⟨st, hst, hdeclaration ▸ ?_⟩
    refine (Stmt.recorded_of_binding _ (hf st hst) hc he).resolve_right ?_
    rintro ⟨site, kind, value, rfl, hvalue⟩
    cases kind with
    | require => cases hvalue
    | entity => rcases ha.fragment _ hst with h | h <;> cases h
  have hpublic : (Setting.ofFile options (ofFile file) file).1.publicNames b.ident.name =
      (Setting.ofFile options (ofFile file) file).1.exportNames b.ident :=
    Setting.publicNames_of_binding ha.once hb
  rw [hpublic, mem_exportNames hw ho hident, hrecords, ← or_assoc]
  refine or_iff_left ?_
  rintro ⟨hnone, ⟨other, hother⟩, -⟩
  exact (hnone other).1 ((hrecords other).mpr hother)

/-- An import is published by its setter, and not with the variables. -/
theorem exportNames_of_import (hb : b ∈ file.bindings) (himport : b.roles.isImport = true) :
    (Setting.ofFile options (ofFile file) file).1.exportNames b.ident = [] := by
  by_contra hne
  obtain ⟨symbol, ho, -⟩ := (exportNames_ne_nil_iff hw hf).mp hne
  obtain ⟨isNamed, hmade⟩ := symbolOf?_binding hw ha.once hb
  have hsymbol : symbol = (Symbol.declared 0 b).marked isNamed :=
    Option.some.inj (ho.symbolOf.symm.trans hmade)
  rcases ha.binding_cases hb with hvariable | ⟨-, horigin⟩
  · rw [hvariable.isImport] at himport
    cases himport
  · have hnone : b.origin = none := by
      rw [← ho.origin, hsymbol, Symbol.marked_origin]
      rfl
    rw [hnone] at horigin
    cases horigin

/-- Just the variables are published, and under the names that the module exports them under. -/
theorem mem_publicNames (x exported : String) :
    exported ∈ (Setting.ofFile options (ofFile file) file).1.publicNames x ↔
      ∃ b ∈ file.bindings, b.roles.isImport = false ∧ b.ident.name = x ∧
        file.ExportsAs b.ident exported := by
  set s := (Setting.ofFile options (ofFile file) file).1
  constructor
  · intro h
    cases hb : s.file.binding? x with
    | none => simp [Setting.publicNames, hb] at h
    | some b =>
      obtain ⟨hmem, rfl⟩ : b ∈ file.bindings ∧ b.ident.name = x := SourceFile.mem_of_binding? hb
      cases himport : b.roles.isImport with
      | false =>
        exact ⟨b, hmem, himport, rfl, (mem_publicNames_of_variable hw hf ha hmem himport exported).mp h⟩
      | true =>
        have hpublic : s.publicNames b.ident.name = s.exportNames b.ident :=
          Setting.publicNames_of_binding ha.once hmem
        rw [hpublic, exportNames_of_import hw hf ha hmem himport] at h
        cases h
  · rintro ⟨b, hb, himport, rfl, hexported⟩
    exact (mem_publicNames_of_variable hw hf ha hb himport exported).mpr hexported

/-! ## Local clauses -/

/-- A name of a local clause that exports a value, and no import, is one of a variable. -/
theorem variable_of_specifier {site : Site} {specs : List ExportSpecifier} {spec : ExportSpecifier}
    (hst : .exportFrom site (some (.named specs)) none false ∈ file.statements)
    (hspec : spec ∈ specs) (hvalue : (ofFile file).specifierIsValue spec = true)
    (himport : (ofFile file).importOf? spec.source = none) :
    spec.source.id.isSynthetic = false ∧ spec.source.name ∈ file.variableNames ∧
      spec.exportedName ∈
        (Setting.ofFile options (ofFile file) file).1.publicNames spec.source.name := by
  obtain ⟨hident, hspecifier⟩ := lookup_specifier hw hst hspec
  have hsource : spec.source ∈ identsIn file.visits := by
    refine identsIn_subset (stmt_visits_subset hst) ?_
    rw [identsIn_clauseVisits]
    exact List.mem_map_of_mem hspec
  have hreal := hw.not_synthetic hsource
  obtain ⟨htype, hany⟩ := Bool.and_eq_true_iff.mp hvalue
  obtain ⟨symbol, hfound, hsymbolValue⟩ := (Option.any_eq_true ..).mp hany
  obtain ⟨id, hid, hsymbol⟩ := Option.bind_eq_some_iff.mp hfound
  rw [hspecifier] at hid
  -- the name is that of a declaration of the module, which its symbol stems from
  obtain ⟨symbol', hsymbol', hname, hscope⟩ := (ofFile_wf file).symbol_of_lookupIn hid
  obtain rfl : symbol' = symbol := Option.some.inj (hsymbol'.symm.trans hsymbol)
  obtain ⟨b, hb, hbname, -⟩ := declaration_of_module hw hsymbol hscope
  have hbsource : b.ident.name = spec.source.name := hbname.trans hname
  have hsame : (ofFile file).symbolOf? spec.source = (ofFile file).symbolOf? b.ident := by
    rw [symbolOf?_of_lookup hreal (hident.trans hid) hsymbol,
      symbolOf?_of_lookup (hw.not_synthetic (SourceFile.ident_mem_visits hb))
        ((lookup_of_binding hw hb).trans (hbsource ▸ hid)) hsymbol]
  have hvariable : b.roles.isImport = false := by
    refine ((ha.binding_cases hb).resolve_right ?_).isImport
    rintro ⟨-, horigin⟩
    obtain ⟨isNamed, hmade⟩ := symbolOf?_binding hw ha.once hb
    have hbvalue : b.roles.isValue = true := by
      rw [← hsame, symbolOf?_of_lookup hreal (hident.trans hid) hsymbol] at hmade
      rw [Option.some.inj hmade, Symbol.marked_isValue] at hsymbolValue
      exact hsymbolValue
    have htype : b.roles.isTypeOnly = false := by
      simpa using (Bool.and_eq_true_iff.mp hbvalue).2
    have himportb : (ofFile file).importOf? b.ident = none := by
      rw [importOf?, ← hsame]
      exact himport
    rw [importOf?_binding hw ha.once hb, Binding.importOrigin?, if_neg (by simp [htype])] at himportb
    rw [himportb] at horigin
    cases horigin
  refine ⟨hreal, ?_, ?_⟩
  · rw [← hbsource]
    exact List.mem_map_of_mem (List.mem_filter.mpr ⟨hb, by simp [hvariable]⟩)
  · rw [← hbsource, mem_publicNames_of_variable hw hf ha hb hvariable]
    refine .inr ⟨spec, mem_exportedSpecifiers.mpr ⟨site, specs, hst, hspec, by simpa using htype⟩,
      ?_, rfl⟩
    rw [hident, lookup_of_binding hw hb, hbsource]

end publications
end RegisterForm
