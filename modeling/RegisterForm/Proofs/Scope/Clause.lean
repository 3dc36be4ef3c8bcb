import RegisterForm.Proofs.Scope.Module
/-!
# Local export clauses

A name of a local export clause stands for what the module's scope holds under it, wherever in
the module the clause is. In a flat file, the symbols inside are neither exported nor imported.
-/
namespace RegisterForm.NameTable
variable {t : NameTable} {file : SourceFile}

theorem bindSpecifiers_append (before after : List ExportSpecifier) (spec : ExportSpecifier)
    (t : NameTable) : t.bindSpecifiers (before ++ spec :: after) =
      ((t.bindSpecifiers before).bindSpecifier spec).bindSpecifiers after := by
  simp only [bindSpecifiers, List.foldl_append, List.foldl_cons]
  rfl

/-- At the top level, an unread name comes to stand for what the module's scope holds. -/
theorem bindSpecifier_lookup (h : t.Wf) (hopen : t.openScopes = [0]) {spec : ExportSpecifier}
    (hx : t.ofIdent.lookup spec.source.id = none) (hs : t.ofSpecifier.lookup spec.id = none) :
    (t.bindSpecifier spec).ofIdent.lookup spec.source.id = t.lookupIn 0 spec.source.name ∧
      (t.bindSpecifier spec).ofSpecifier.lookup spec.id = t.lookupIn 0 spec.source.name := by
  have hlook : t.lookup? spec.source.name = t.lookupIn 0 spec.source.name := by
    rw [h.lookup?_eq, hopen]
    simp [lookupIn]
  cases hl : t.lookupIn 0 spec.source.name with
  | none =>
    rw [hl] at hlook
    simp [bindSpecifier, resolve, hx, hlook, hs]
  | some id =>
    rw [hl] at hlook
    simp [bindSpecifier, resolve, hx, hlook]

/-- The visits of a local clause with some of its names. -/
abbrev clauseVisits (site : Site) (isTypeOnly : Bool) (specs : List ExportSpecifier) : List Visit :=
  (Stmt.exportFrom site (some (.named specs)) none isTypeOnly).visits

section clauseVisits
variable (site : Site) (isTypeOnly : Bool) (specs : List ExportSpecifier)

theorem identsIn_specifiers :
    identsIn (specs.flatMap (·.visits)) = specs.map (·.source) := by
  induction specs with
  | nil => rfl
  | cons spec specs ih =>
    have hnames : ∀ names : List String, identsIn (names.map .name) = [] := by
      intro names
      induction names with
      | nil => rfl
      | cons name names ih => exact ih
    rw [List.flatMap_cons, ExportSpecifier.visits, List.cons_append, identsIn_ident,
      identsIn_append, hnames, ih]
    rfl

theorem specifiersIn_specifiers : specifiersIn (specs.flatMap (·.visits)) = [] := by
  refine List.flatMap_eq_nil_iff.mpr fun v hv => ?_
  obtain ⟨spec, -, hv⟩ := List.mem_flatMap.mp hv
  rcases List.mem_cons.mp hv with rfl | hv
  · rfl
  · obtain ⟨name, -, rfl⟩ := List.mem_map.mp hv
    rfl

theorem identsIn_clauseVisits :
    identsIn (clauseVisits site isTypeOnly specs) = specs.map (·.source) := by
  simp [clauseVisits, Stmt.visits_exportFrom, ExportClause.visits, exprVisits?, identsIn_specifiers]

theorem specifiersIn_clauseVisits : specifiersIn (clauseVisits site isTypeOnly specs) = specs := by
  have h := specifiersIn_specifiers specs
  simp [clauseVisits, Stmt.visits_exportFrom, ExportClause.visits, exprVisits?]
  rw [show ∀ v vs, specifiersIn (v :: vs) = specifiersIn [v] ++ specifiersIn vs from
    fun v vs => specifiersIn_append [v] vs, h]
  simp [specifiersIn]

end clauseVisits

theorem binds_clause (site : Site) (isTypeOnly : Bool) (specs : List ExportSpecifier) :
    Binds (clauseVisits site isTypeOnly specs) [] (·.bindSpecifiers specs) :=
  .bindSpecifiers (by rw [specifiersIn_clauseVisits]; exact List.Subset.refl _)
    (by rw [identsIn_clauseVisits]; exact List.Subset.refl _)

theorem bindStmts_append (before after : List Stmt) (t : NameTable) :
    bindStmts (before ++ after) t = bindStmts after (bindStmts before t) := by
  induction before generalizing t with
  | nil => rfl
  | cons s before ih => exact ih _

theorem stmtsVisits_append (before after : List Stmt) :
    stmtsVisits (before ++ after) = stmtsVisits before ++ stmtsVisits after := by
  induction before with
  | nil => rfl
  | cons s before ih => rw [List.cons_append, stmtsVisits, stmtsVisits, ih, List.append_assoc]

/-- An export clause declares nothing. -/
theorem moduleBindings_clause (site : Site) (clause : Option ExportClause)
    (specifier : Option Expr) (isTypeOnly : Bool) :
    (Stmt.exportFrom site clause specifier isTypeOnly).moduleBindings = [] := rfl

/-- An identity that stands once in a list stands in no other place of it. -/
private theorem ne_of_nodup_map {α β : Type} {f : α → β} {before after : List α} {a : α}
    (h : ((before ++ a :: after).map f).Nodup) : ∀ b ∈ before ++ after, f b ≠ f a := by
  have hswap : ((a :: (before ++ after)).map f).Nodup :=
    (List.perm_middle.map f).nodup_iff.mp h
  intro b hb he
  rw [List.map_cons, List.nodup_cons] at hswap
  exact hswap.1 (he ▸ List.mem_map_of_mem hb)

/-- What a local clause names is what the module's scope holds under that name. -/
theorem lookup_specifier (hw : file.WellNumbered) {site : Site} {specs : List ExportSpecifier}
    {isTypeOnly : Bool} (hst : .exportFrom site (some (.named specs)) none isTypeOnly ∈
      file.statements) {spec : ExportSpecifier} (hspec : spec ∈ specs) :
    (ofFile file).ofIdent.lookup spec.source.id = (ofFile file).lookupIn 0 spec.source.name ∧
      (ofFile file).ofSpecifier.lookup spec.id = (ofFile file).lookupIn 0 spec.source.name := by
  obtain ⟨pre, post, hstmts⟩ := List.append_of_mem hst
  obtain ⟨before, after, hspecs⟩ := List.append_of_mem hspec
  have hvisits : file.visits = stmtsVisits pre ++ (clauseVisits site isTypeOnly specs ++
      stmtsVisits post) := by
    rw [SourceFile.visits, hstmts, stmtsVisits_append, stmtsVisits]
  -- The identities of the name and of its source stand in no other place.
  have hidents : ∀ x ∈ (identsIn (stmtsVisits pre) ++ before.map (·.source)) ++
      (after.map (·.source) ++ identsIn (stmtsVisits post)), x.id ≠ spec.source.id := by
    refine ne_of_nodup_map ?_
    have h := hw.identIds
    rw [hvisits, identsIn_append, identsIn_append, identsIn_clauseVisits, hspecs] at h
    simpa using h
  have hspecifiers : ∀ s ∈ (specifiersIn (stmtsVisits pre) ++ before) ++
      (after ++ specifiersIn (stmtsVisits post)), s.id ≠ spec.id := by
    refine ne_of_nodup_map ?_
    have h := hw.specifierIds
    rw [hvisits, specifiersIn_append, specifiersIn_append, specifiersIn_clauseVisits, hspecs] at h
    simpa using h
  simp only [List.mem_append] at hidents hspecifiers
  -- Nothing is noted for them when the module's scope has been filled.
  have hdecl : Within 0 (stmtsVisits pre ++ stmtsVisits post) (∀ b ∈ file.bindings, b.IsPlain)
      (({ file := some file.id } : NameTable).enter .module) (declared file) := by
    refine within_declareAll ((wf_empty _).enter .module) (fun _ _ => Nat.zero_le _) ?_
    intro b hb
    obtain ⟨s, hs, hbs⟩ := SourceFile.mem_bindings.mp hb
    rw [hstmts, List.mem_append, List.mem_cons] at hs
    rw [identsIn_append, List.mem_append]
    rcases hs with hs | rfl | hs
    · exact .inl (identsIn_subset (stmt_visits_subset hs) (Stmt.ident_mem_visits hbs))
    · simp [moduleBindings_clause] at hbs
    · exact .inr (identsIn_subset (stmt_visits_subset hs) (Stmt.ident_mem_visits hbs))
  have hopen₀ : (declared file).openScopes = [0] := hdecl.openScopes
  have hident₀ : (declared file).ofIdent.lookup spec.source.id = none :=
    hdecl.ident fun x hx => by
      rw [identsIn_append, List.mem_append] at hx
      exact hidents x (hx.imp .inl .inr)
  have hspec₀ : (declared file).ofSpecifier.lookup spec.id = none :=
    hdecl.specifier fun s hs => by
      rw [specifiersIn_append, List.mem_append] at hs
      exact hspecifiers s (hs.imp .inl .inr)
  -- The statements and names before it leave that as it is.
  let t₁ := bindStmts pre (declared file)
  have h₁ : Within 1 (stmtsVisits pre) (AllInner (pre.flatMap (·.visits.tail))) (declared file) t₁ :=
    (binds_module pre).above hdecl.wf (declared_size file)
  let t₁' : NameTable := { t₁ with depth := t₁.depth + 1 }
  have hwf₁ : t₁'.Wf := h₁.wf.of_arenas rfl rfl (Wf.isChain_of_scopes h₁.wf.opened rfl)
  let t₂ := t₁'.bindSpecifiers before
  have h₂ : Within 1 (clauseVisits site isTypeOnly before) (AllInner []) t₁' t₂ :=
    (binds_clause site isTypeOnly before).above hwf₁ (Nat.le_trans (declared_size file) h₁.size)
  have hsize₂ : 1 ≤ t₂.scopes.size :=
    Nat.le_trans (Nat.le_trans (declared_size file) h₁.size) h₂.size
  have hopen₂ : t₂.openScopes = [0] := (h₂.openScopes.trans h₁.openScopes).trans hopen₀
  have hin₂ : t₂.lookupIn 0 spec.source.name = (ofFile file).lookupIn 0 spec.source.name := by
    rw [ofFile_lookupIn, h₂.lookupIn Nat.zero_lt_one (Nat.le_trans (declared_size file) h₁.size),
      ← h₁.lookupIn Nat.zero_lt_one (declared_size file)]
    rfl
  have hident₂ : t₂.ofIdent.lookup spec.source.id = none := by
    refine (h₂.ident fun x hx => ?_).trans ((h₁.ident fun x hx => ?_).trans hident₀)
    · rw [identsIn_clauseVisits] at hx
      exact hidents x (.inl (.inr hx))
    · exact hidents x (.inl (.inl hx))
  have hspec₂ : t₂.ofSpecifier.lookup spec.id = none := by
    refine (h₂.specifier fun s hs => ?_).trans ((h₁.specifier fun s hs => ?_).trans hspec₀)
    · rw [specifiersIn_clauseVisits] at hs
      exact hspecifiers s (.inl (.inr hs))
    · exact hspecifiers s (.inl (.inl hs))
  obtain ⟨hident₃, hspec₃⟩ := bindSpecifier_lookup h₂.wf hopen₂ hident₂ hspec₂
  -- What comes after keeps what was noted.
  let t₃ := t₂.bindSpecifier spec
  have h₃ : Within 1 (clauseVisits site isTypeOnly [spec]) (AllInner []) t₂ t₃ :=
    (binds_clause site isTypeOnly [spec]).above h₂.wf hsize₂
  let t₄ := t₃.bindSpecifiers after
  have h₄ : Within 1 (clauseVisits site isTypeOnly after) (AllInner []) t₃ t₄ :=
    (binds_clause site isTypeOnly after).above h₃.wf (Nat.le_trans hsize₂ h₃.size)
  let t₄' : NameTable := { t₄ with depth := t₄.depth - 1 }
  have hwf₄ : t₄'.Wf := h₄.wf.of_arenas rfl rfl (Wf.isChain_of_scopes h₄.wf.opened rfl)
  let t₅ := bindStmts post t₄'
  have h₅ : Within 1 (stmtsVisits post) (AllInner (post.flatMap (·.visits.tail))) t₄' t₅ :=
    (binds_module post).above hwf₄ (Nat.le_trans (Nat.le_trans hsize₂ h₃.size) h₄.size)
  have hread : readThrough file = t₅ := by
    have hdepth : t₁.depth < maxTreeDepth := by
      rw [h₁.depth, hdecl.depth]
      exact (show 0 < maxTreeDepth by decide)
    have hclause : (Stmt.exportFrom site (some (.named specs)) none isTypeOnly).bind t₁ = t₄' := by
      change t₁.deeper (·.bindSpecifiers specs) = t₄'
      rw [NameTable.deeper, if_pos hdepth, hspecs, bindSpecifiers_append]
    rw [readThrough, hstmts, bindStmts_append, bindStmts, hclause]
  have hident₅ : t₅.ofIdent.lookup spec.source.id = t₃.ofIdent.lookup spec.source.id := by
    refine (h₅.ident fun x hx => ?_).trans (h₄.ident fun x hx => ?_)
    · exact hidents x (.inr (.inr hx))
    · rw [identsIn_clauseVisits] at hx
      exact hidents x (.inr (.inl hx))
  have hspec₅ : t₅.ofSpecifier.lookup spec.id = t₃.ofSpecifier.lookup spec.id := by
    refine (h₅.specifier fun s hs => ?_).trans (h₄.specifier fun s hs => ?_)
    · exact hspecifiers s (.inr (.inr hs))
    · rw [specifiersIn_clauseVisits] at hs
      exact hspecifiers s (.inr (.inl hs))
  rw [ofFile_ofIdent, ofFile_ofSpecifier, hread, hident₅, hspec₅, ← hin₂]
  exact ⟨hident₃, hspec₃⟩

theorem mem_exportedSpecifiers {spec : ExportSpecifier} {stmts : List Stmt} :
    spec ∈ exportedSpecifiers stmts ↔ ∃ site specs,
      Stmt.exportFrom site (some (.named specs)) none false ∈ stmts ∧ spec ∈ specs ∧
        spec.isTypeOnly = false := by
  rw [exportedSpecifiers, List.mem_flatMap]
  constructor
  · rintro ⟨s, hs, hspec⟩
    split at hspec
    · next site specs =>
      obtain ⟨hm, ht⟩ := List.mem_filter.mp hspec
      exact ⟨site, specs, hs, hm, by simpa using ht⟩
    · simp at hspec
  · rintro ⟨site, specs, hs, hm, ht⟩
    exact ⟨_, hs, List.mem_filter.mpr ⟨hm, by simp [ht]⟩⟩

theorem ofFile_wf (file : SourceFile) : (ofFile file).Wf := by
  have hw := (readThrough_within file).wf
  obtain ⟨symbols, hm, -⟩ := markExported_eq (exportedSpecifiers file.statements) (readThrough file)
  have hscope : ∀ i, (ofFile file).scope? i = (readThrough file).scope? i := fun i => by
    rw [ofFile_eq, hm]
    rfl
  have hopen : (ofFile file).openScopes = [] := by
    rw [ofFile_eq, hm]
    exact congrArg List.tail ((readThrough_within file).openScopes.trans
      (declared_within file).openScopes)
  constructor
  · intro i scope name id hs hl
    rw [hscope] at hs
    obtain ⟨symbol, hsym, hn, hi⟩ := hw.stored hs hl
    exact ⟨_, by rw [ofFile_symbol, hsym]; rfl, by simpa using hn, by simpa using hi⟩
  · intro id symbol hs
    rw [ofFile_symbol] at hs
    obtain ⟨s, hread, rfl⟩ := Option.map_eq_some_iff.mp hs
    simpa [hscope] using hw.held hread
  · rw [hopen]
    trivial

theorem scopes_size_declareAll (bs : List Binding) (t : NameTable) :
    (t.declareAll bs).scopes.size = t.scopes.size := by
  induction bs generalizing t with
  | nil => rfl
  | cons b bs ih =>
    have hone : (t.declare b).scopes.size = t.scopes.size := by
      unfold declare declareIn
      split
      · rfl
      · split
        · rfl
        · split <;> simp
    exact (ih _).trans hone

/-- In a flat file only the module's own symbols are exported or imported. -/
theorem plain_of_inner (hw : file.WellNumbered) (hf : file.IsFlat) {id : SymbolId} {s : Symbol}
    (hs : (ofFile file).symbol? id = some s) (h₀ : s.scope ≠ 0) :
    s.roles.isExported = false ∧ s.origin = none := by
  have hunnamed : ((exportedSpecifiers file.statements).any fun spec =>
      (ofFile file).ofSpecifier.lookup spec.id == some id) = false := by
    rw [List.any_eq_false]
    intro spec hspec hl
    obtain ⟨site, specs, hst, hm, -⟩ := mem_exportedSpecifiers.mp hspec
    rw [(lookup_specifier hw hst hm).2, beq_iff_eq] at hl
    obtain ⟨s', hs', -, hscope⟩ := (ofFile_wf file).symbol_of_lookupIn hl
    rw [hs] at hs'
    cases hs'
    exact h₀ hscope
  rw [ofFile_symbol, hunnamed, Symbol.marked_false, Option.map_id, id_eq] at hs
  have hflat : AllInner (file.statements.flatMap (·.visits.tail)) := by
    intro v hv
    obtain ⟨st, hst, hv⟩ := List.mem_flatMap.mp hv
    exact hf st hst v hv
  rcases (readThrough_within file).plain hflat hs with h | ⟨s', hs', -, -⟩
  · exact h
  · -- a symbol declared before reading is one of the module's
    obtain ⟨s'', hs'', -, hscope, -, -⟩ := (readThrough_within file).symbol hs'
    rw [hs] at hs''
    cases hs''
    obtain ⟨scope, hin, -⟩ := (declared_within file).wf.held hs'
    have hlt := scope?_lt hin
    rw [declared, scopes_size_declareAll] at hlt
    exact absurd (hscope.trans (Nat.lt_one_iff.mp hlt)) h₀

end RegisterForm.NameTable
