import Mathlib.Data.List.Nodup
import RegisterForm.Proofs.Scope.Held
/-!
# The table of a file

The scope of a module is the first one and holds what the module declares. Reading the module
leaves it as it is; at the end the values that local clauses name are marked as exported.
In a flat file nothing else is exported or imported.
-/
namespace RegisterForm

/-! ## Identities -/

theorem identIds_sublist (vs : List Visit) :
    ((identsIn vs).map (·.id)).Sublist (vs.flatMap Visit.ids) := by
  induction vs with
  | nil => exact .refl _
  | cons v vs ih =>
    cases v with
    | ident x => exact ih.cons_cons _
    | stmt s => exact ih.trans (List.sublist_append_right _ _)
    | expr e => exact ih
    | pattern p => exact ih
    | func f => exact ih
    | classNode c => exact ih
    | name text => exact ih

theorem specifierIds_sublist (vs : List Visit) :
    ((specifiersIn vs).map (·.id)).Sublist (vs.flatMap Visit.ids) := by
  induction vs with
  | nil => exact .refl _
  | cons v vs ih =>
    have hcons : specifiersIn (v :: vs) = specifiersIn [v] ++ specifiersIn vs :=
      specifiersIn_append [v] vs
    have hhead : ((specifiersIn [v]).map (·.id)).Sublist v.ids := by
      unfold specifiersIn Visit.ids
      split <;> simp_all
      split <;> simp_all
    rw [hcons, List.map_append, List.flatMap_cons]
    exact hhead.append ih

namespace SourceFile
variable {file : SourceFile}

theorem WellNumbered.identIds (h : file.WellNumbered) :
    ((identsIn file.visits).map (·.id)).Nodup := h.nodup.sublist (identIds_sublist _)

theorem WellNumbered.specifierIds (h : file.WellNumbered) :
    ((specifiersIn file.visits).map (·.id)).Nodup := h.nodup.sublist (specifierIds_sublist _)

/-- An identifier of the file is told by its identity. -/
theorem WellNumbered.ident_eq (h : file.WellNumbered) {x y : Ident}
    (hx : x ∈ identsIn file.visits) (hy : y ∈ identsIn file.visits) (he : x.id = y.id) : x = y :=
  List.inj_on_of_nodup_map h.identIds hx hy he

theorem WellNumbered.not_synthetic (h : file.WellNumbered) {x : Ident}
    (hx : x ∈ identsIn file.visits) : x.id.isSynthetic = false := by
  rw [Bool.eq_false_iff, ne_eq, NodeId.isSynthetic_eq_true]
  intro he
  exact h.numbered (he ▸ (identIds_sublist _).subset (List.mem_map_of_mem hx))

/-- What the module declares in its own scope. -/
def bindings (file : SourceFile) : List Binding :=
  blockVarBindings file.statements ++ blockLexicalBindings true file.statements

end SourceFile

theorem stmt_visits_subset {s : Stmt} : ∀ {stmts : List Stmt}, s ∈ stmts →
    s.visits ⊆ stmtsVisits stmts
  | s' :: stmts, hs => by
    rcases List.mem_cons.mp hs with rfl | hs
    · exact List.subset_append_left _ _
    · exact List.Subset.trans (stmt_visits_subset hs) (List.subset_append_right _ _)

/-- What a statement of the module declares in the module's scope. -/
def Stmt.moduleBindings (s : Stmt) : List Binding := s.varBindings ++ s.lexicalBindings true

theorem ImportClause.ident_mem_visits {c : ImportClause} {d : NodeId} {isTypeOnly : Bool}
    {b : Binding} (h : b ∈ c.bindingsOf d isTypeOnly) : b.ident ∈ identsIn c.visits := by
  obtain ⟨default, bindings⟩ := c
  simp only [ImportClause.bindingsOf, ImportClause.visits, identsIn_append, List.mem_append] at h ⊢
  rcases h with h | h
  · obtain ⟨x, hx, rfl⟩ := List.mem_map.mp h
    exact .inl (by simpa using hx)
  · refine .inr ?_
    cases bindings with
    | none => simp at h
    | some bindings =>
      cases bindings with
      | star x => simp_all [ImportBindings.visits]
      | named specifiers =>
        obtain ⟨spec, hs, rfl⟩ := List.mem_map.mp h
        have hv : Visit.ident spec.binding ∈ (ImportBindings.named specifiers).visits :=
          List.mem_flatMap.mpr ⟨spec, hs, by simp [ImportSpecifier.visits]⟩
        exact List.mem_filterMap.mpr ⟨.ident spec.binding, by simpa using hv, rfl⟩

/-- The names that a statement of the module declares stand in it. -/
theorem Stmt.ident_mem_visits {s : Stmt} {b : Binding} (h : b ∈ s.moduleBindings) :
    b.ident ∈ identsIn s.visits := by
  rcases List.mem_append.mp h with h | h
  · exact s.declares_varBindings.ident b h
  · cases s with
    | importFrom site clause specifier isTypeOnly =>
      obtain ⟨c, hc, hb⟩ := List.mem_flatMap.mp (show b ∈ clause.toList.flatMap _ from h)
      have hx := ImportClause.ident_mem_visits hb
      rw [Option.mem_toList] at hc
      subst hc
      simp [Stmt.visits_importFrom, hx]
    | importEquals site isExported name kind value =>
      have hb := List.mem_singleton.mp (show b ∈ [_] from h)
      subst hb
      exact List.mem_cons_self
    | _ => exact (Stmt.declares_lexicalBindings _).ident b h

theorem mem_blockVarBindings {b : Binding} {stmts : List Stmt} :
    b ∈ blockVarBindings stmts ↔ ∃ s ∈ stmts, b ∈ s.varBindings := by
  induction stmts with
  | nil => simp [blockVarBindings]
  | cons s stmts ih => simp [blockVarBindings, ih]

namespace SourceFile

theorem mem_bindings {file : SourceFile} {b : Binding} :
    b ∈ file.bindings ↔ ∃ s ∈ file.statements, b ∈ s.moduleBindings := by
  simp only [bindings, List.mem_append, mem_blockVarBindings, blockLexicalBindings,
    List.mem_flatMap, Stmt.moduleBindings]
  grind

theorem ident_mem_visits {file : SourceFile} {b : Binding} (hb : b ∈ file.bindings) :
    b.ident ∈ identsIn file.visits := by
  obtain ⟨s, hs, hb⟩ := mem_bindings.mp hb
  exact identsIn_subset (stmt_visits_subset hs) (Stmt.ident_mem_visits hb)

end SourceFile

namespace NameTable
variable {t : NameTable} {file : SourceFile}

/-! ## Reading the module -/

/-- The table in which the module's scope is filled and nothing is read yet. -/
def declared (file : SourceFile) : NameTable :=
  (({ file := some file.id } : NameTable).enter .module).declareAll file.bindings

/-- The table in which all of the module is read. -/
def readThrough (file : SourceFile) : NameTable := bindStmts file.statements (declared file)

theorem declareBody_module (file : SourceFile) :
    (({ file := some file.id } : NameTable).enter .module).declareBody true file.statements =
      declared file := by
  rw [declareBody, declareVars_eq_declareAll (k := 0) _ ((wf_empty _).enter .module) rfl
    ⟨_, scope?_enter_new .module _, rfl⟩]
  simp [declared, SourceFile.bindings, declareAll]

theorem ofFile_eq (file : SourceFile) :
    ofFile file = ((readThrough file).markExported (exportedSpecifiers file.statements)).leave := by
  rw [ofFile, rebind_eq, inScope, declareBody_module]
  rfl

theorem declared_within (file : SourceFile) : Within 0 file.visits
    (∀ b ∈ file.bindings, b.IsPlain) (({ file := some file.id } : NameTable).enter .module)
    (declared file) :=
  within_declareAll ((wf_empty _).enter .module) (fun _ _ => Nat.zero_le _) fun _ hb =>
    SourceFile.ident_mem_visits hb

theorem declared_holds_of_nodup (hids : ((identsIn file.visits).map (·.id)).Nodup) :
    (declared file).Holds 0 file.bindings := by
  have henter : (({ file := some file.id } : NameTable).enter .module).Holds 0 [] :=
    Holds.enter (wf_empty (some file.id)) .module
  refine henter.declareAll _ ?_
  intro b hb c hc he
  exact congrArg Ident.name (List.inj_on_of_nodup_map hids (SourceFile.ident_mem_visits hb)
    (SourceFile.ident_mem_visits hc) he)

theorem declared_holds (hw : file.WellNumbered) : (declared file).Holds 0 file.bindings :=
  declared_holds_of_nodup hw.identIds

theorem declared_size (file : SourceFile) : 1 ≤ (declared file).scopes.size :=
  Nat.le_trans (by simp [enter]) (declared_within file).size

/-- At the top level, only what stands inside a statement is still to be declared. -/
theorem binds_module (stmts : List Stmt) :
    Binds (stmtsVisits stmts) (stmts.flatMap (·.visits.tail)) (bindStmts stmts) := by
  induction stmts with
  | nil => exact .skip
  | cons s stmts ih => exact s.binds.comp ih

/-- Reading a part of the module's statements, once the module's scope is filled. -/
theorem Binds.above {vs ws : List Visit} {step : NameTable → NameTable} (h : Binds vs ws step)
    (ht : t.Wf) (hsize : 1 ≤ t.scopes.size) : Within 1 vs (AllInner ws) t (step t) :=
  (h t ht).mono hsize (List.Subset.refl _) id

theorem readThrough_within (file : SourceFile) : Within 1 file.visits
    (AllInner (file.statements.flatMap (·.visits.tail))) (declared file) (readThrough file) :=
  (binds_module file.statements).above (declared_within file).wf (declared_size file)

theorem Within.lookupIn {k : ScopeId} {vs : List Visit} {plain : Prop} {t' : NameTable}
    (h : Within k vs plain t t') {i : ScopeId} (hi : i < k) (hs : i < t.scopes.size)
    (name : String) : t'.lookupIn i name = t.lookupIn i name := by
  obtain ⟨scope, hscope⟩ := scope?_of_lt hs
  rw [NameTable.lookupIn, NameTable.lookupIn, hscope, h.scope hi hscope]

theorem readThrough_lookupIn (file : SourceFile) (name : String) :
    (readThrough file).lookupIn 0 name = (declared file).lookupIn 0 name :=
  (readThrough_within file).lookupIn (Nat.zero_lt_one) (declared_size file) name

/-! ## Marking exports -/

end NameTable

/-- A symbol that a local export clause names. Only values are exported. -/
def Symbol.marked (isNamed : Bool) (s : Symbol) : Symbol :=
  if isNamed && s.roles.isValue then { s with roles := { s.roles with isExported := true } } else s

section marked
variable (a : Bool) (s : Symbol)

@[simp] theorem Symbol.marked_false : Symbol.marked false = id := rfl

@[simp] theorem Symbol.marked_name : (s.marked a).name = s.name := by
  unfold Symbol.marked
  split <;> rfl

@[simp] theorem Symbol.marked_scope : (s.marked a).scope = s.scope := by
  unfold Symbol.marked
  split <;> rfl

@[simp] theorem Symbol.marked_declaration : (s.marked a).declaration = s.declaration := by
  unfold Symbol.marked
  split <;> rfl

@[simp] theorem Symbol.marked_origin : (s.marked a).origin = s.origin := by
  unfold Symbol.marked
  split <;> rfl

@[simp] theorem Symbol.marked_isValue : (s.marked a).roles.isValue = s.roles.isValue := by
  unfold Symbol.marked
  split <;> rfl

@[simp] theorem Symbol.marked_isExported :
    (s.marked a).roles.isExported = (a && s.roles.isValue || s.roles.isExported) := by
  unfold Symbol.marked
  split <;> simp_all

theorem Symbol.marked_marked (b : Bool) : (s.marked b).marked a = s.marked (b || a) := by
  by_cases hv : s.roles.isValue = true
  · have htrue : s.marked true = { s with roles := { s.roles with isExported := true } } :=
      if_pos (by simp [hv])
    have hvalue : (s.marked true).roles.isValue = true := by simp [hv]
    cases a <;> cases b <;> try rfl
    rw [Symbol.marked, hvalue]
    simp [htrue]
  · have hsame : ∀ c, s.marked c = s := fun c => if_neg (by simp [hv])
    simp [hsame]

end marked

namespace NameTable
variable {t : NameTable} {file : SourceFile}

theorem markExported_eq (specs : List ExportSpecifier) (t : NameTable) :
    ∃ symbols, t.markExported specs = { t with symbols } ∧
      ∀ id, (t.markExported specs).symbol? id = (t.symbol? id).map
        (.marked (specs.any fun spec => t.ofSpecifier.lookup spec.id == some id)) := by
  induction specs generalizing t with
  | nil => exact ⟨t.symbols, rfl, fun id => by simp [markExported]⟩
  | cons spec specs ih =>
    have hcons : t.markExported (spec :: specs) = (t.markExported [spec]).markExported specs := rfl
    have hone : ∃ symbols, t.markExported [spec] = { t with symbols } ∧
        ∀ id, (t.markExported [spec]).symbol? id =
          (t.symbol? id).map (.marked (t.ofSpecifier.lookup spec.id == some id)) := by
      cases hl : t.ofSpecifier.lookup spec.id with
      | none => exact ⟨t.symbols, by simp [markExported, hl], fun id => by simp [markExported, hl]⟩
      | some i =>
        have hstep : t.markExported [spec] =
            { t with symbols := t.symbols.modify i (·.marked true) } := by
          simp only [markExported, List.foldl_cons, List.foldl_nil, hl]
          rfl
        refine ⟨_, hstep, fun id => ?_⟩
        rw [hstep]
        by_cases hi : i = id
        · simp [symbol?, Array.getElem?_modify, hi]
        · have hne : (i == id) = false := beq_eq_false_iff_ne.mpr hi
          simp [symbol?, Array.getElem?_modify, hi, hne]
    obtain ⟨symbols₁, h₁, hs₁⟩ := hone
    obtain ⟨symbols₂, h₂, hs₂⟩ := ih (t.markExported [spec])
    refine ⟨symbols₂, by rw [hcons, h₂, h₁], fun id => ?_⟩
    rw [hcons, hs₂, hs₁, h₁, Option.map_map]
    congr 1
    funext s
    simp [Symbol.marked_marked]

theorem ofFile_ofIdent (file : SourceFile) : (ofFile file).ofIdent = (readThrough file).ofIdent := by
  obtain ⟨symbols, hm, -⟩ := markExported_eq (exportedSpecifiers file.statements) (readThrough file)
  rw [ofFile_eq, hm]
  rfl

theorem ofFile_ofSpecifier (file : SourceFile) :
    (ofFile file).ofSpecifier = (readThrough file).ofSpecifier := by
  obtain ⟨symbols, hm, -⟩ := markExported_eq (exportedSpecifiers file.statements) (readThrough file)
  rw [ofFile_eq, hm]
  rfl

theorem ofFile_file (file : SourceFile) : (ofFile file).file = some file.id := by
  obtain ⟨symbols, hm, -⟩ := markExported_eq (exportedSpecifiers file.statements) (readThrough file)
  rw [ofFile_eq, hm]
  exact (readThrough_within file).file.trans (declared_within file).file

theorem ofFile_lookupIn (file : SourceFile) (name : String) :
    (ofFile file).lookupIn 0 name = (declared file).lookupIn 0 name := by
  obtain ⟨symbols, hm, -⟩ := markExported_eq (exportedSpecifiers file.statements) (readThrough file)
  rw [← readThrough_lookupIn, ofFile_eq, hm]
  rfl

theorem ofFile_symbol (file : SourceFile) (id : SymbolId) :
    (ofFile file).symbol? id = ((readThrough file).symbol? id).map
      (.marked ((exportedSpecifiers file.statements).any fun spec =>
        (ofFile file).ofSpecifier.lookup spec.id == some id)) := by
  obtain ⟨_, -, hs⟩ := markExported_eq (exportedSpecifiers file.statements) (readThrough file)
  rw [ofFile_ofSpecifier, ← hs, ofFile_eq]
  rfl

/-! ## Symbols of the module -/

theorem readThrough_holds (hw : file.WellNumbered) {id : SymbolId} {s : Symbol}
    (hs : (readThrough file).symbol? id = some s) (h₀ : s.scope = 0) :
    symbolFor 0 s.name file.bindings = some s := by
  have hin : (declared file).lookupIn 0 s.name = some id := by
    have hl := (readThrough_within file).wf.lookupIn_of_symbol hs
    rwa [h₀, readThrough_lookupIn] at hl
  obtain ⟨s', hs', -, hscope'⟩ := (declared_within file).wf.symbol_of_lookupIn hin
  obtain ⟨s'', hs'', hname, hscope, -, hsame⟩ := (readThrough_within file).symbol hs'
  rw [hs] at hs''
  cases hs''
  have he : s = s' := hsame (hscope'.symm ▸ Nat.zero_lt_one)
  subst he
  exact (declared_holds hw).symbol_eq hs' h₀

/-- A symbol of the module is made by its declarations and by the clauses that name it. -/
theorem symbol_of_module (hw : file.WellNumbered) {id : SymbolId} {s : Symbol}
    (hs : (ofFile file).symbol? id = some s) (h₀ : s.scope = 0) :
    ∃ s', symbolFor 0 s.name file.bindings = some s' ∧ s = s'.marked
      ((exportedSpecifiers file.statements).any fun spec =>
        (ofFile file).ofSpecifier.lookup spec.id == some id) := by
  rw [ofFile_symbol] at hs
  obtain ⟨s', hs', rfl⟩ := Option.map_eq_some_iff.mp hs
  rw [Symbol.marked_scope] at h₀
  rw [Symbol.marked_name]
  exact ⟨s', readThrough_holds hw hs' h₀, rfl⟩

/-- Whoever reads an identifier of the file finds a symbol of its name. -/
theorem symbol_of_ident (hw : file.WellNumbered) {x : Ident} (hx : x ∈ identsIn file.visits)
    {id : SymbolId} (hl : (ofFile file).ofIdent.lookup x.id = some id) :
    ∃ s, (ofFile file).symbol? id = some s ∧ s.name = x.name := by
  rw [ofFile_ofIdent] at hl
  have hall := (declared_within file).trans
    ((readThrough_within file).mono (Nat.zero_le _) (List.Subset.refl _) fun h => h)
  have hmem : (x.id, id) ∈ (readThrough file).ofIdent := by
    obtain ⟨l₁, l₂, heq, -⟩ := List.lookup_eq_some_iff.mp hl
    simp [heq]
  rcases hall.entry hmem with hnone | ⟨y, hy, hid, s, hs, hname⟩
  · simp [enter] at hnone
  · have hy' : y ∈ identsIn file.visits := by simpa using hy
    have hxy := hw.ident_eq hy' hx hid
    subst hxy
    exact ⟨_, by rw [ofFile_symbol, hs]; rfl, by simpa using hname⟩

end NameTable
end RegisterForm
