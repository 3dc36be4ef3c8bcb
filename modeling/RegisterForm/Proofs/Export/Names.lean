import RegisterForm.Proofs.Export.Record
import RegisterForm.Registration.Call
/-!
# Export names

A variable of a module is exported under the names that its declarations give it, and under
those of the local clauses that name it. A write is published under the names recorded with
the first declaration, or under the variable's own name if none is.
-/
namespace RegisterForm
open NameTable

namespace SourceFile

/-- Some declaration of the name in the module's scope exports it. -/
def DeclaresExport (file : SourceFile) (name exported : String) : Prop :=
  ∃ s ∈ file.statements, ∃ b ∈ s.moduleBindings,
    b.roles.isExported = true ∧ b.ident.name = name ∧ s.exportName name = exported

/-- Some local clause exports what the identifier stands for. -/
def ClauseExports (file : SourceFile) (x : Ident) (exported : String) : Prop :=
  ∃ spec ∈ exportedSpecifiers file.statements,
    (ofFile file).ofIdent.lookup spec.source.id = (ofFile file).ofIdent.lookup x.id ∧
      spec.exportedName = exported

/-- What the identifier stands for is exported under the name. -/
def ExportsAs (file : SourceFile) (x : Ident) (exported : String) : Prop :=
  file.DeclaresExport x.name exported ∨ file.ClauseExports x exported

/-- Some declaration records the name with the identity. -/
def Records (file : SourceFile) (d : NodeId) (exported : String) : Prop :=
  ∃ s ∈ file.statements, (d, exported) ∈ s.recorded (ofFile file)

end SourceFile

/-- The identifier stands for a value of the module's scope that is not imported. -/
structure NameTable.IsOwn (t : NameTable) (x : Ident) (symbol : Symbol) : Prop where
  symbolOf : t.symbolOf? x = some symbol
  scope : symbol.scope = 0
  isValue : symbol.roles.isValue = true
  origin : symbol.origin = none

variable {file : SourceFile} {x : Ident} {symbol : Symbol} {exported : String} {options : Options}

theorem NameTable.symbolOf?_eq_some {t : NameTable} (h : t.symbolOf? x = some symbol) :
    x.id.isSynthetic = false ∧ ∃ id, t.ofIdent.lookup x.id = some id ∧
      t.symbol? id = some symbol := by
  unfold symbolOf? at h
  split at h
  · cases h
  · next hn => exact ⟨Bool.eq_false_iff.mpr hn, Option.bind_eq_some_iff.mp h⟩

theorem NameTable.symbolOf?_of_lookup {t : NameTable} (hx : x.id.isSynthetic = false) {id : SymbolId}
    (hl : t.ofIdent.lookup x.id = some id) (hs : t.symbol? id = some symbol) :
    t.symbolOf? x = some symbol := by
  rw [symbolOf?, hx, hl]
  exact hs

/-- What a declaration records stems from what it declares. -/
theorem Stmt.recorded_eq {t : NameTable} {s : Stmt} {d : NodeId} (h : (d, exported) ∈ s.recorded t) :
    ∃ b ∈ s.moduleBindings, b.ident.id = d ∧ b.roles.isExported = true ∧
      s.exportName b.ident.name = exported := by
  cases s with
  | var modifiers list =>
    simp only [Stmt.recorded, List.mem_ite_nil_right, List.mem_map, Prod.mk.injEq] at h
    obtain ⟨he, x, hx, rfl, rfl⟩ := h
    change ∃ b ∈ list.varBindings modifiers.isExported ++
      list.lexicalBindings modifiers.isExported, _
    simp only [VarList.varBindings, VarList.lexicalBindings, List.mem_append]
    cases list.kind.isBlockScoped with
    | true =>
      exact ⟨⟨x, _, none⟩, .inr (List.mem_map.mpr ⟨x, hx, rfl⟩), rfl, he, rfl⟩
    | false =>
      exact ⟨⟨x, _, none⟩, .inl (List.mem_map.mpr ⟨x, hx, rfl⟩), rfl, he, rfl⟩
  | function modifiers f =>
    simp only [Stmt.recorded, List.mem_ite_nil_right, List.mem_map, Prod.mk.injEq] at h
    obtain ⟨he, x, hx, rfl, rfl⟩ := h
    exact ⟨⟨x, _, none⟩, List.mem_map.mpr ⟨x, hx, rfl⟩, rfl, he, rfl⟩
  | classDecl modifiers c =>
    simp only [Stmt.recorded, List.mem_ite_nil_right, List.mem_map, Prod.mk.injEq] at h
    obtain ⟨he, x, hx, rfl, rfl⟩ := h
    exact ⟨⟨x, _, none⟩, List.mem_map.mpr ⟨x, hx, rfl⟩, rfl, he, rfl⟩
  | importEquals site isExported x kind value =>
    simp only [Stmt.recorded, List.mem_ite_nil_right, List.mem_singleton, Prod.mk.injEq,
      Bool.and_eq_true] at h
    obtain ⟨⟨he, -⟩, rfl, rfl⟩ := h
    exact ⟨_, List.mem_singleton.mpr rfl, rfl, he, rfl⟩
  | _ => simp [Stmt.recorded] at h

/-- The first declaration of a symbol of the module. -/
theorem NameTable.declaration_of_module (hw : file.WellNumbered) {id : SymbolId}
    (hs : (ofFile file).symbol? id = some symbol) (h₀ : symbol.scope = 0) :
    ∃ b ∈ file.bindings, b.ident.name = symbol.name ∧ symbol.declaration = b.ident.id := by
  obtain ⟨s', hs', hsym⟩ := symbol_of_module hw hs h₀
  obtain ⟨-, -, b, hb, hd⟩ := symbolFor_eq_some hs'
  have hname : b.ident.name = symbol.name := by simpa using List.find?_some hb
  refine ⟨b, List.mem_of_find?_eq_some hb, hname, ?_⟩
  rw [hsym, Symbol.marked_declaration]
  exact hd

/-- The symbols of the module are told apart by their declarations. -/
theorem NameTable.eq_of_declaration (hw : file.WellNumbered) {id id' : SymbolId} {s s' : Symbol}
    (hs : (ofFile file).symbol? id = some s) (hs' : (ofFile file).symbol? id' = some s')
    (h₀ : s.scope = 0) (h₀' : s'.scope = 0) (hd : s.declaration = s'.declaration) : id = id' := by
  obtain ⟨b, hb, hn, hbd⟩ := declaration_of_module hw hs h₀
  obtain ⟨b', hb', hn', hbd'⟩ := declaration_of_module hw hs' h₀'
  have hident : b.ident = b'.ident := hw.ident_eq (SourceFile.ident_mem_visits hb)
    (SourceFile.ident_mem_visits hb') (by rw [← hbd, ← hbd', hd])
  refine (ofFile_wf file).symbol_unique hs hs' ?_ (h₀.trans h₀'.symm)
  rw [← hn, ← hn', hident]

/-- The names of an exported variable are those recorded with its first declaration, or else its
own. -/
theorem exportNames_of_own (ho : (ofFile file).IsOwn x symbol) :
    (Setting.ofFile options (ofFile file) file).1.exportNames x =
      if symbol.roles.isExported = true then
        match (Setting.ofFile options (ofFile file) file).1.interface.namesOf symbol.declaration with
        | [] => [x.name]
        | name :: names => name :: names
      else [] := by
  set s := (Setting.ofFile options (ofFile file) file).1 with hsetting
  have hreal := (symbolOf?_eq_some ho.symbolOf).1
  have himport : (s.names.importOf? x).isSome = false := by
    have hnames : s.names = ofFile file := rfl
    rw [hnames, importOf?, ho.symbolOf]
    simp [ho.origin]
  have hdecl : s.names.valueDeclaration? x = some symbol.declaration := by
    have hnames : s.names = ofFile file := rfl
    simp [hnames, valueDeclaration?, ho.symbolOf, ho.isValue]
  have hexporter : s.names.exporterOf? x = some s.file.id ↔ symbol.roles.isExported = true := by
    have hnames : s.names = ofFile file := rfl
    have hfile : s.file = file := rfl
    rw [hnames, hfile, exporterOf?, ho.symbolOf]
    simp only [Option.bind_some, ho.isValue, Bool.and_true, ofFile_file]
    split <;> simp_all
  unfold Setting.exportNames
  by_cases he : symbol.roles.isExported = true
  · rw [if_pos he, if_neg (by simp [hreal, himport, hexporter.mpr he]), hdecl]
    rfl
  · rw [if_neg he, if_pos (by simp [hexporter.not.mpr he])]

section own
variable (hw : file.WellNumbered) (ho : (ofFile file).IsOwn x symbol)
include hw ho

/-- A local clause exports the symbol exactly if it records a name with its declaration. -/
theorem clauseExports_iff :
    file.ClauseExports x exported ↔ ∃ spec ∈ exportedSpecifiers file.statements,
      (ofFile file).specifierIsValue spec = true ∧
        (ofFile file).valueDeclaration? spec.source = some symbol.declaration ∧
        spec.exportedName = exported := by
  obtain ⟨-, id, hl, hs⟩ := symbolOf?_eq_some ho.symbolOf
  refine exists_congr fun spec => and_congr_right fun hspec => ?_
  obtain ⟨site, specs, hst, hm, hvalue⟩ := mem_exportedSpecifiers.mp hspec
  obtain ⟨hident, hspecifier⟩ := lookup_specifier hw hst hm
  have hsource : spec.source ∈ identsIn file.visits := by
    refine identsIn_subset (stmt_visits_subset hst) ?_
    rw [identsIn_clauseVisits]
    exact List.mem_map_of_mem hm
  have hreal := hw.not_synthetic hsource
  rw [hl, ← and_assoc]
  refine and_congr_left fun _ => ⟨fun h => ⟨?_, ?_⟩, fun ⟨_, hd⟩ => ?_⟩
  · have hspec' : (ofFile file).ofSpecifier.lookup spec.id = some id := by
      rw [hspecifier, ← hident, h]
    simp [specifierIsValue, hvalue, hspec', hs, ho.isValue]
  · simp [valueDeclaration?, symbolOf?_of_lookup hreal h hs, ho.isValue]
  · obtain ⟨s', hs', hd'⟩ := Option.bind_eq_some_iff.mp hd
    obtain ⟨-, id', hl', hsym'⟩ := symbolOf?_eq_some hs'
    obtain ⟨s'', hsym'', -, hscope⟩ := (ofFile_wf file).symbol_of_lookupIn (hident.symm.trans hl')
    rw [hsym'] at hsym''
    cases hsym''
    by_cases hv : s'.roles.isValue = true
    · rw [if_pos hv, Option.some.injEq] at hd'
      rw [hl', eq_of_declaration hw hsym' hs hscope ho.scope hd']
    · rw [if_neg hv] at hd'
      cases hd'

variable (hx : x ∈ identsIn file.visits)
include hx

/-- The symbol is exported exactly if it is exported under some name. -/
theorem isExported_iff :
    symbol.roles.isExported = true ↔ ∃ exported, file.ExportsAs x exported := by
  obtain ⟨-, id, hl, hs⟩ := symbolOf?_eq_some ho.symbolOf
  obtain ⟨s, hs', hname⟩ := symbol_of_ident hw hx hl
  rw [hs] at hs'
  cases hs'
  obtain ⟨s', hfor, hsym⟩ := symbol_of_module hw hs ho.scope
  have hvalue : s'.roles.isValue = true := by
    have hv := ho.isValue
    rwa [hsym, Symbol.marked_isValue] at hv
  have hmarked : symbol.roles.isExported = (((exportedSpecifiers file.statements).any fun spec =>
      (ofFile file).ofSpecifier.lookup spec.id == some id) || s'.roles.isExported) := by
    conv_lhs => rw [hsym, Symbol.marked_isExported, hvalue, Bool.and_true]
  rw [hmarked, symbolFor_isExported hfor, Bool.or_eq_true, or_comm]
  simp only [SourceFile.ExportsAs, exists_or]
  refine or_congr ?_ ?_
  · rw [List.any_eq_true]
    constructor
    · rintro ⟨b, hb, he⟩
      simp only [Bool.and_eq_true, beq_iff_eq] at he
      obtain ⟨s, hs, hb⟩ := SourceFile.mem_bindings.mp hb
      exact ⟨_, s, hs, b, hb, he.2, he.1.trans hname, rfl⟩
    · rintro ⟨_, s, hs, b, hb, he, hn, -⟩
      exact ⟨b, SourceFile.mem_bindings.mpr ⟨s, hs, hb⟩, by simp [he, hn, hname]⟩
  · rw [List.any_eq_true]
    constructor
    · rintro ⟨spec, hspec, he⟩
      obtain ⟨site, specs, hst, hm, -⟩ := mem_exportedSpecifiers.mp hspec
      obtain ⟨hident, hspecifier⟩ := lookup_specifier hw hst hm
      refine ⟨_, spec, hspec, ?_, rfl⟩
      rw [hl, hident, ← hspecifier]
      exact beq_iff_eq.mp he
    · rintro ⟨_, spec, hspec, he, -⟩
      obtain ⟨site, specs, hst, hm, -⟩ := mem_exportedSpecifiers.mp hspec
      obtain ⟨hident, hspecifier⟩ := lookup_specifier hw hst hm
      refine ⟨spec, hspec, beq_iff_eq.mpr ?_⟩
      rw [hspecifier, ← hident, he, hl]

/-- What is recorded with the first declaration is declared. -/
theorem declaresExport_of_records (h : file.Records symbol.declaration exported) :
    file.DeclaresExport x.name exported := by
  obtain ⟨-, id, hl, hs⟩ := symbolOf?_eq_some ho.symbolOf
  obtain ⟨s, hs', hname⟩ := symbol_of_ident hw hx hl
  rw [hs] at hs'
  cases hs'
  obtain ⟨st, hst, hrec⟩ := h
  obtain ⟨b, hb, hid, he, hn⟩ := Stmt.recorded_eq hrec
  obtain ⟨b', hb', hn', hd⟩ := declaration_of_module hw hs ho.scope
  have hident : b.ident = b'.ident := hw.ident_eq
    (SourceFile.ident_mem_visits (SourceFile.mem_bindings.mpr ⟨st, hst, hb⟩))
    (SourceFile.ident_mem_visits hb') (hid.trans hd)
  have hbx : b.ident.name = x.name := by rw [hident, hn', hname]
  exact ⟨st, hst, b, hb, he, hbx, hbx ▸ hn⟩

/-- A write is published under what is recorded with the first declaration and what the local
clauses give; where that is nothing, under the own name of a variable declared as exported. -/
theorem mem_exportNames :
    exported ∈ (Setting.ofFile options (ofFile file) file).1.exportNames x ↔
      file.Records symbol.declaration exported ∨ file.ClauseExports x exported ∨
        ((∀ other, ¬file.Records symbol.declaration other ∧ ¬file.ClauseExports x other) ∧
          (∃ other, file.DeclaresExport x.name other) ∧ exported = x.name) := by
  set s := (Setting.ofFile options (ofFile file) file).1 with hsetting
  have hrecorded : ∀ other, other ∈ s.interface.namesOf symbol.declaration ↔
      file.Records symbol.declaration other ∨ file.ClauseExports x other := by
    intro other
    rw [Interface.mem_namesOf, clauseExports_iff hw ho]
    exact Interface.mem_ofFile
  have hexported := isExported_iff hw ho hx
  rw [exportNames_of_own ho, ← hsetting]
  by_cases he : symbol.roles.isExported = true
  · rw [if_pos he]
    cases hlist : s.interface.namesOf symbol.declaration with
    | nil =>
      have hnone : ∀ other, ¬file.Records symbol.declaration other ∧
          ¬file.ClauseExports x other := by
        intro other
        have hother := hrecorded other
        rw [hlist] at hother
        simpa using hother
      obtain ⟨other, hother⟩ := hexported.mp he
      have hdeclared : file.DeclaresExport x.name other :=
        hother.resolve_right (hnone other).2
      have hself := hnone exported
      simp only [List.mem_singleton, hself, false_or]
      exact ⟨fun h => ⟨hnone, ⟨other, hdeclared⟩, h⟩, fun h => h.2.2⟩
    | cons name names =>
      have hname := (hrecorded name).mp (by simp [hlist])
      dsimp only
      rw [← hlist, hrecorded]
      constructor
      · exact fun h => h.elim .inl fun h => .inr (.inl h)
      · rintro (h | h | ⟨hnone, -⟩)
        · exact .inl h
        · exact .inr h
        · exact (hname.elim (hnone name).1 (hnone name).2).elim
  · rw [if_neg he]
    have hno : ∀ other, ¬file.ExportsAs x other := fun other h => he (hexported.mpr ⟨other, h⟩)
    constructor
    · simp
    · rintro (h | h | ⟨-, ⟨other, h⟩, -⟩)
      · exact (hno _ (.inl (declaresExport_of_records hw ho hx h))).elim
      · exact (hno _ (.inr h)).elim
      · exact (hno _ (.inl h)).elim

end own

/-- Writes are published under exactly the exported names if the names that declarations give are
recorded with the first of them or given by a clause too, or if nothing is recorded and no
other name than the variable's own is declared. -/
theorem exportNames_exact_iff (hw : file.WellNumbered) (hx : x ∈ identsIn file.visits)
    (ho : (ofFile file).IsOwn x symbol) :
    (∀ exported, exported ∈ (Setting.ofFile options (ofFile file) file).1.exportNames x ↔
      file.ExportsAs x exported) ↔
    (∀ exported, file.DeclaresExport x.name exported →
      file.Records symbol.declaration exported ∨ file.ClauseExports x exported) ∨
    ((∀ other, ¬file.Records symbol.declaration other ∧ ¬file.ClauseExports x other) ∧
      ∀ exported, file.DeclaresExport x.name exported → exported = x.name) := by
  simp only [mem_exportNames hw ho hx, SourceFile.ExportsAs]
  have hdeclared : ∀ exported, file.Records symbol.declaration exported →
      file.DeclaresExport x.name exported := fun _ => declaresExport_of_records hw ho hx
  constructor
  · intro hall
    by_cases hnone : ∀ other, ¬file.Records symbol.declaration other ∧ ¬file.ClauseExports x other
    · refine .inr ⟨hnone, fun exported hd => ?_⟩
      rcases (hall exported).mpr (.inl hd) with h | h | ⟨-, -, h⟩
      · exact ((hnone exported).1 h).elim
      · exact ((hnone exported).2 h).elim
      · exact h
    · refine .inl fun exported hd => ?_
      rcases (hall exported).mpr (.inl hd) with h | h | ⟨h, -⟩
      · exact .inl h
      · exact .inr h
      · exact (hnone h).elim
  · rintro (hcovered | ⟨hnone, hown⟩) exported
    · constructor
      · rintro (h | h | ⟨hnone, ⟨other, hd⟩, -⟩)
        · exact .inl (hdeclared exported h)
        · exact .inr h
        · exact ((hcovered other hd).elim (hnone other).1 (hnone other).2).elim
      · rintro (h | h)
        · exact (hcovered exported h).elim .inl fun h => .inr (.inl h)
        · exact .inr (.inl h)
    · constructor
      · rintro (h | h | ⟨-, ⟨other, hd⟩, rfl⟩)
        · exact ((hnone exported).1 h).elim
        · exact ((hnone exported).2 h).elim
        · exact .inl (hown other hd ▸ hd)
      · rintro (h | h)
        · exact .inr (.inr ⟨hnone, ⟨exported, h⟩, hown exported h⟩)
        · exact ((hnone exported).2 h).elim

/-- `var x = 1; export var x = 2; export { x as y }; x = 3;` -/
def redeclaredExport : SourceFile where
  id := .numbered 6
  name := "m.ts"
  statements := [
    .var {} ⟨.var, [⟨.ident ⟨.numbered 0, "x"⟩, some (.ofNumber "1")⟩]⟩,
    .var { isExported := true } ⟨.var, [⟨.ident ⟨.numbered 1, "x"⟩, some (.ofNumber "2")⟩]⟩,
    .exportFrom ⟨.numbered 4, {}⟩ (some (.named [⟨.numbered 2, ⟨.numbered 3, "x"⟩, some "y", false⟩]))
      none false,
    .expr (.assignTo (.ident ⟨.numbered 5, "x"⟩) (.ofNumber "3"))]

/-- The `x` that the last statement writes. -/
def redeclaredTarget : Ident := ⟨.numbered 5, "x"⟩

theorem redeclaredExport_wellNumbered : redeclaredExport.WellNumbered :=
  ⟨by decide, by decide⟩

theorem redeclaredTarget_isOwn : (ofFile redeclaredExport).IsOwn redeclaredTarget
    ⟨"x", { isVariable := true, isExported := true }, .numbered 0, 0, none⟩ :=
  ⟨by decide, rfl, rfl, rfl⟩

/-- The name `y` that the clause records with the first declaration hides the own name. -/
theorem exportNames_exact_iff_redeclared :
    redeclaredExport.WellNumbered ∧ redeclaredTarget ∈ identsIn redeclaredExport.visits ∧
      (ofFile redeclaredExport).IsOwn redeclaredTarget
        ⟨"x", { isVariable := true, isExported := true }, .numbered 0, 0, none⟩ ∧
      ((∀ exported, exported ∈ (Setting.ofFile {} (ofFile redeclaredExport)
          redeclaredExport).1.exportNames redeclaredTarget ↔
        redeclaredExport.ExportsAs redeclaredTarget exported) ↔
      (∀ exported, redeclaredExport.DeclaresExport "x" exported →
        redeclaredExport.Records (.numbered 0) exported ∨
          redeclaredExport.ClauseExports redeclaredTarget exported) ∨
      ((∀ other, ¬redeclaredExport.Records (.numbered 0) other ∧
          ¬redeclaredExport.ClauseExports redeclaredTarget other) ∧
        ∀ exported, redeclaredExport.DeclaresExport "x" exported → exported = "x")) :=
  ⟨redeclaredExport_wellNumbered, by decide, redeclaredTarget_isOwn,
    exportNames_exact_iff redeclaredExport_wellNumbered (by decide) redeclaredTarget_isOwn⟩

/-- A variable whose second declaration exports it is not published under its own name once a
clause gives it another one. -/
theorem own_name_not_published :
    redeclaredExport.WellNumbered ∧ redeclaredTarget ∈ identsIn redeclaredExport.visits ∧
      (ofFile redeclaredExport).IsOwn redeclaredTarget
        ⟨"x", { isVariable := true, isExported := true }, .numbered 0, 0, none⟩ ∧
      redeclaredExport.ExportsAs redeclaredTarget "x" ∧
      "x" ∉ (Setting.ofFile {} (ofFile redeclaredExport) redeclaredExport).1.exportNames
        redeclaredTarget := by
  refine ⟨redeclaredExport_wellNumbered, by decide, redeclaredTarget_isOwn, .inl ?_, by decide⟩
  exact ⟨_, .tail _ (.head _), ⟨⟨.numbered 1, "x"⟩, _, none⟩, .head _, rfl, rfl, rfl⟩

end RegisterForm
