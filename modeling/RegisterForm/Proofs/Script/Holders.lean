import RegisterForm.Proofs.Script.Node
/-!
# Imports and their holders

Whoever reads an import of a module finds a variable that holds the imported module: an import
that gives a value stands in the module's interface, and there it gets its holder.
-/
namespace RegisterForm

/-! ## Dependences -/

/-- What a statement of the module takes from another module. -/
def Stmt.dependence? : Stmt → Option Dependence
  | .importFrom site clause specifier isTypeOnly =>
    if isTypeOnly || clause.any (·.isTypeOnly) then none
    else some ⟨site, specifier, .importing clause⟩
  | .importEquals site isExported name .require value => some ⟨site, value, .equals name isExported⟩
  | .exportFrom site clause (some specifier) false =>
    if clause.any (·.isTypeOnly) then none else some ⟨site, specifier, .exporting clause⟩
  | _ => none

/-- The names that an import clause binds. -/
def ImportClause.bound (c : ImportClause) : List Ident :=
  c.default.toList ++ match c.bindings with
    | none => []
    | some (.star x) => [x]
    | some (.named specifiers) => specifiers.map (·.binding)

/-- The names that a statement binds to what it takes from another module. -/
def Dependence.bound (d : Dependence) : List Ident :=
  match d.form with
  | .importing clause => clause.toList.flatMap ImportClause.bound
  | .equals name _ => [name]
  | .exporting _ => []

namespace Interface
variable {t : NameTable} (i : Interface)

@[simp] theorem dependences_addExport (d : NodeId) (name : String) :
    (i.addExport d name).dependences = i.dependences := by
  unfold addExport
  split <;> rfl

@[simp] theorem dependences_addNamed (modifiers : Modifiers) (name : Ident) :
    (i.addNamed modifiers name).dependences = i.dependences := by
  unfold addNamed
  split <;> simp

@[simp] theorem dependences_addFunction (d : NodeId) :
    (i.addFunction d).dependences = i.dependences := by
  unfold addFunction
  split <;> rfl

@[simp] theorem dependences_addSpecifier (spec : ExportSpecifier) :
    (i.addSpecifier t spec).dependences = i.dependences := by
  unfold addSpecifier
  split
  · dsimp only
    split <;> simp
  · rfl

/-- A fold whose steps leave a part of the interface as it is does so itself. -/
theorem part_foldl {α β : Type} {part : Interface → β} {step : Interface → α → Interface}
    (hstep : ∀ i a, part (step i a) = part i) (as : List α) (i : Interface) :
    part (as.foldl step i) = part i := by
  induction as generalizing i with
  | nil => rfl
  | cons a as ih => rw [List.foldl_cons, ih, hstep]

/-- Of a statement only its own dependence is added, whatever the names stand for. -/
theorem dependences_addStmt (s : Stmt) :
    (i.addStmt t s).dependences = i.dependences ++ s.dependence?.toList := by
  cases s with
  | importFrom site clause specifier isTypeOnly =>
    unfold addStmt Stmt.dependence?
    dsimp only
    split <;> simp [addDependence]
  | importEquals site isExported name kind value =>
    cases kind with
    | require =>
      unfold addStmt Stmt.dependence?
      dsimp only
      split <;> simp [addDependence]
    | entity =>
      unfold addStmt Stmt.dependence?
      dsimp only
      split <;> simp
  | exportFrom site clause specifier isTypeOnly =>
    cases isTypeOnly with
    | true => simp [addStmt, Stmt.dependence?]
    | false =>
      cases specifier with
      | some specifier =>
        unfold addStmt Stmt.dependence?
        dsimp only
        split <;> simp [addDependence]
      | none =>
        unfold addStmt Stmt.dependence?
        split <;> simp_all
        exact part_foldl (fun i spec => dependences_addSpecifier i spec) _ i
  | exportValue site form value => cases form <;> simp [addStmt, Stmt.dependence?]
  | var modifiers list =>
    unfold addStmt Stmt.dependence?
    dsimp only
    split
    · rw [Option.toList_none, List.append_nil]
      exact part_foldl (fun i (x : Ident) => dependences_addExport i x.id x.name) _ i
    · simp
  | function modifiers f =>
    unfold addStmt Stmt.dependence?
    dsimp only
    split <;> simp
  | classDecl modifiers c =>
    unfold addStmt Stmt.dependence?
    dsimp only
    split <;> simp
  | _ => simp [addStmt, Stmt.dependence?]

theorem dependences_foldl_addStmt (stmts : List Stmt) :
    (stmts.foldl (addStmt t) i).dependences =
      i.dependences ++ stmts.filterMap Stmt.dependence? := by
  induction stmts generalizing i with
  | nil => simp
  | cons s stmts ih =>
    rw [List.foldl_cons, ih, dependences_addStmt, List.append_assoc, List.filterMap_cons]
    cases s.dependence? <;> rfl

/-- A module takes from others what its statements say, in source order. -/
theorem dependences_ofFile (t : NameTable) (file : SourceFile) :
    (ofFile t file).dependences = file.statements.filterMap Stmt.dependence? := by
  rw [ofFile, dependences_foldl_addStmt]
  rfl

end Interface

/-! ## Holders -/

/-- Enters the holder of a dependence, if it gets one. -/
def Dependence.enterHolder (r : List (NodeId × String) × Hoisting) (d : Dependence) :
    List (NodeId × String) × Hoisting :=
  match d.holder? r.2 with
  | (some name, h) => ((d.site.id, name) :: r.1, h)
  | (none, h) => (r.1, h)

theorem holdersOf_eq_foldl (uses : List Dependence) (h : Hoisting) :
    holdersOf uses h = uses.foldl Dependence.enterHolder ([], h) := rfl

/-- A dependence that gets a holder leaves an entry, and entries are not lost. -/
theorem lookup_holdersOf {d : Dependence} (hd : ∀ h, (d.holder? h).1.isSome) :
    ∀ (uses : List Dependence) (h : Hoisting), d ∈ uses →
      ((holdersOf uses h).1.lookup d.site.id).isSome := by
  have hkept : ∀ (r : List (NodeId × String) × Hoisting) (d' : Dependence),
      (r.1.lookup d.site.id).isSome → ((d'.enterHolder r).1.lookup d.site.id).isSome := by
    rintro ⟨holders, h⟩ d' hlook
    unfold Dependence.enterHolder
    split
    · dsimp only
      rw [List.lookup_cons]
      split
      · rfl
      · exact hlook
    · exact hlook
  have hfold : ∀ (uses : List Dependence) (r : List (NodeId × String) × Hoisting),
      (r.1.lookup d.site.id).isSome ∨ d ∈ uses →
      ((uses.foldl Dependence.enterHolder r).1.lookup d.site.id).isSome := by
    intro uses
    induction uses with
    | nil => exact fun r h => h.resolve_right List.not_mem_nil
    | cons d' uses ih =>
      intro r h
      refine ih _ ?_
      rcases h with h | h
      · exact .inl (hkept r d' h)
      · rcases List.mem_cons.mp h with rfl | h
        · obtain ⟨name, hname⟩ := Option.isSome_iff_exists.mp (hd r.2)
          refine .inl ?_
          unfold Dependence.enterHolder
          split
          · next heq => simp
          · next heq =>
            rw [heq] at hname
            cases hname
        · exact .inr h
  exact fun uses h hmem => hfold uses ([], h) (.inr hmem)

/-- Whether a statement of the module gets a variable that holds another module. -/
def Stmt.HasHolder (s : Stmt) (declaration : NodeId) : Prop :=
  ∃ d, s.dependence? = some d ∧ d.site.id = declaration ∧ ∀ h, (d.holder? h).1.isSome

/-! ## Imports that give values -/

/-- A symbol that imports a value has its import from a statement with a holder. -/
def Symbol.IsHeld (file : SourceFile) (s : Symbol) : Prop :=
  s.roles.isTypeOnly = false → ∀ origin, s.origin = some origin →
    ∃ st ∈ file.statements, st.HasHolder origin.declaration

/-- A clause that binds a value is not made for types only. -/
theorem ImportClause.isTypeOnly_eq_false {c : ImportClause} {d : NodeId} {isTypeOnly : Bool}
    {b : Binding} (hb : b ∈ c.bindingsOf d isTypeOnly) (hvalue : b.roles.isTypeOnly = false) :
    isTypeOnly = false ∧ c.isTypeOnly = false := by
  obtain ⟨default, bindings⟩ := c
  simp only [ImportClause.bindingsOf, List.mem_append] at hb
  rcases hb with hb | hb
  · obtain ⟨x, hx, rfl⟩ := List.mem_map.mp hb
    rw [Option.mem_toList] at hx
    subst hx
    exact ⟨hvalue, rfl⟩
  · cases bindings with
    | none => cases hb
    | some bindings =>
      cases bindings with
      | star x =>
        obtain rfl := List.mem_singleton.mp hb
        refine ⟨hvalue, ?_⟩
        cases default <;> rfl
      | named specifiers =>
        obtain ⟨spec, hspec, rfl⟩ := List.mem_map.mp hb
        obtain ⟨h₁, h₂⟩ := Bool.or_eq_false_iff.mp hvalue
        refine ⟨h₁, ?_⟩
        cases default with
        | some x => rfl
        | none =>
          refine Bool.and_eq_false_iff.mpr (.inr ?_)
          exact List.all_eq_false.mpr ⟨spec, hspec, by simp [h₂]⟩

theorem ImportClause.origin_of_mem {c : ImportClause} {d : NodeId} {isTypeOnly : Bool}
    {b : Binding} (hb : b ∈ c.bindingsOf d isTypeOnly) {origin : ImportOrigin}
    (ho : b.origin = some origin) : origin.declaration = d := by
  obtain ⟨default, bindings⟩ := c
  simp only [ImportClause.bindingsOf, List.mem_append] at hb
  rcases hb with hb | hb
  · obtain ⟨x, -, rfl⟩ := List.mem_map.mp hb
    cases ho
    rfl
  · cases bindings with
    | none => cases hb
    | some bindings =>
      cases bindings with
      | star x =>
        obtain rfl := List.mem_singleton.mp hb
        cases ho
        rfl
      | named specifiers =>
        obtain ⟨spec, -, rfl⟩ := List.mem_map.mp hb
        cases ho
        rfl

/-- An import with a clause has a holder. -/
theorem Dependence.holder?_importing (site : Site) (specifier : Expr) (c : ImportClause)
    (h : Hoisting) :
    ((⟨site, specifier, .importing (some c)⟩ : Dependence).holder? h).1.isSome := by
  obtain ⟨default, bindings⟩ := c
  unfold Dependence.holder?
  dsimp only
  split <;> simp_all

/-- A statement that binds a name to what it takes has a holder. -/
theorem Dependence.holder?_of_bound {d : Dependence} {x : Ident} (hx : x ∈ d.bound) (h : Hoisting) :
    (d.holder? h).1.isSome := by
  obtain ⟨site, specifier, form⟩ := d
  match form, hx with
  | .importing (some c), _ => exact Dependence.holder?_importing site specifier c h
  | .equals name isExported, _ => rfl

/-- An import clause declares the names that it binds. -/
theorem ImportClause.ident_bindingsOf (c : ImportClause) (d : NodeId) (isTypeOnly : Bool) :
    (c.bindingsOf d isTypeOnly).map (·.ident) = c.bound := by
  obtain ⟨default, bindings⟩ := c
  match bindings with
  | none => simp [ImportClause.bindingsOf, ImportClause.bound, Function.comp_def]
  | some (.star x) => simp [ImportClause.bindingsOf, ImportClause.bound, Function.comp_def]
  | some (.named specifiers) =>
    simp [ImportClause.bindingsOf, ImportClause.bound, Function.comp_def]

theorem origin_bindingsOf {roles : Roles} {xs : List Ident} {b : Binding}
    (hb : b ∈ bindingsOf roles xs) : b.origin = none := by
  obtain ⟨x, -, rfl⟩ := List.mem_map.mp hb
  rfl

theorem VarList.origin_eq_none {list : VarList} {isExported : Bool} {b : Binding}
    (hb : b ∈ list.varBindings isExported ∨ b ∈ list.lexicalBindings isExported) :
    b.origin = none := by
  unfold VarList.varBindings VarList.lexicalBindings at hb
  rcases hb with hb | hb <;>
  · split at hb
    · first | cases hb | exact origin_bindingsOf hb
    · first | cases hb | exact origin_bindingsOf hb

/-- In a flat module only import statements import. -/
theorem Stmt.origin_varBindings {s : Stmt} (hs : AllInner s.visits.tail) {b : Binding}
    (hb : b ∈ s.varBindings) : b.origin = none := by
  by_cases hmodule : s.isModuleSyntax = false
  · have hinner : AllInner s.visits := by
      rw [Stmt.visits_cons]
      exact (allInner_cons _ _).mpr ⟨by simp [Visit.isInner, hmodule], hs⟩
    exact (s.declares_varBindings.plain hinner b hb).2
  · cases s with
    | var modifiers list => exact VarList.origin_eq_none (.inl hb)
    | function | classDecl | importFrom | importEquals | exportFrom | exportValue => cases hb
    | _ => exact absurd rfl hmodule

/-- A value that a statement of the module imports is bound to what the statement takes from another
module. -/
theorem Stmt.dependence_of_origin {s : Stmt} (hs : AllInner s.visits.tail) {b : Binding}
    (hb : b ∈ s.moduleBindings) (hvalue : b.roles.isTypeOnly = false) {origin : ImportOrigin}
    (ho : b.origin = some origin) :
    ∃ d, s.dependence? = some d ∧ d.site.id = origin.declaration ∧ b.ident ∈ d.bound := by
  have hnone : ∀ {b : Binding}, b.origin = none → b.origin ≠ some origin := by
    intro b hb he
    rw [hb] at he
    cases he
  rcases List.mem_append.mp hb with hvar | hlexical
  · exact absurd ho (hnone (Stmt.origin_varBindings hs hvar))
  · cases s with
    | var modifiers list => exact absurd ho (hnone (VarList.origin_eq_none (.inr hlexical)))
    | function modifiers f => exact absurd ho (hnone (origin_bindingsOf hlexical))
    | classDecl modifiers c => exact absurd ho (hnone (origin_bindingsOf hlexical))
    | ambient name isExported => exact absurd ho (hnone (origin_bindingsOf hlexical))
    | importFrom site clause specifier isTypeOnly =>
      cases clause with
      | none => cases hlexical
      | some c =>
        have hclause : b ∈ c.bindingsOf site.id isTypeOnly := by
          simpa [Stmt.lexicalBindings] using hlexical
        obtain ⟨himport, hc⟩ := ImportClause.isTypeOnly_eq_false hclause hvalue
        refine ⟨⟨site, specifier, .importing (some c)⟩, ?_, ?_, ?_⟩
        · simp [Stmt.dependence?, himport, hc]
        · exact (ImportClause.origin_of_mem hclause ho).symm
        · have hident := List.mem_map_of_mem (f := Binding.ident) hclause
          rw [c.ident_bindingsOf] at hident
          simpa [Dependence.bound] using hident
    | importEquals site isExported name kind value =>
      obtain rfl := List.mem_singleton.mp hlexical
      cases kind with
      | entity => cases ho
      | require =>
        cases ho
        exact ⟨⟨site, value, .equals name isExported⟩, rfl, rfl, List.mem_singleton_self _⟩
    | _ => cases hlexical

theorem Stmt.hasHolder_of_origin {s : Stmt} (hs : AllInner s.visits.tail) {b : Binding}
    (hb : b ∈ s.moduleBindings) (hvalue : b.roles.isTypeOnly = false) {origin : ImportOrigin}
    (ho : b.origin = some origin) : s.HasHolder origin.declaration := by
  obtain ⟨d, hd, hsite, hbound⟩ := Stmt.dependence_of_origin hs hb hvalue ho
  exact ⟨d, hd, hsite, Dependence.holder?_of_bound hbound⟩

namespace NameTable

/-- What holds of every new symbol and of every redeclared one holds of all symbols. -/
theorem symbols_declareAll {P : Symbol → Prop} {bs : List Binding} {t : NameTable}
    (hnew : ∀ b ∈ bs, ∀ k, P (.declared k b)) (hagain : ∀ b ∈ bs, ∀ s, P s → P (s.redeclared b))
    (ht : ∀ id s, t.symbol? id = some s → P s) :
    ∀ id s, (t.declareAll bs).symbol? id = some s → P s := by
  induction bs generalizing t with
  | nil => exact ht
  | cons b bs ih =>
    obtain ⟨hb, hbs⟩ := List.forall_mem_cons.mp hnew
    obtain ⟨hb', hbs'⟩ := List.forall_mem_cons.mp hagain
    refine ih (t := t.declare b) hbs hbs' fun id s hs => ?_
    unfold declare at hs
    split at hs
    · exact ht id s hs
    · next k _ =>
      unfold declareIn at hs
      split at hs
      · exact ht id s hs
      · next scope _ =>
        split at hs
        · next i _ =>
          by_cases hi : i = id
          · subst hi
            simp only [symbol?, Array.getElem?_modify, if_true] at hs
            obtain ⟨old, hold, rfl⟩ := Option.map_eq_some_iff.mp hs
            exact hb' old (ht i old hold)
          · simp only [symbol?, Array.getElem?_modify, if_neg hi] at hs
            exact ht id s hs
        · by_cases hi : id = t.symbols.size
          · subst hi
            simp only [symbol?, Array.getElem?_push, if_true, Option.some.injEq] at hs
            exact hs ▸ hb k
          · simp only [symbol?, Array.getElem?_push, if_neg hi] at hs
            exact ht id s hs

variable {file : SourceFile}

/-- Every symbol of the module's scope that imports a value has a holder. -/
theorem declared_isHeld (hf : file.IsFlat) {id : SymbolId} {s : Symbol}
    (hs : (declared file).symbol? id = some s) : s.IsHeld file := by
  have hbinding : ∀ b ∈ file.bindings, b.roles.isTypeOnly = false → ∀ origin,
      b.origin = some origin → ∃ st ∈ file.statements, st.HasHolder origin.declaration := by
    intro b hb hvalue origin ho
    obtain ⟨st, hst, hb⟩ := SourceFile.mem_bindings.mp hb
    exact ⟨st, hst, Stmt.hasHolder_of_origin (hf st hst) hb hvalue ho⟩
  refine symbols_declareAll (P := Symbol.IsHeld file) (fun b hb k => hbinding b hb)
    (fun b hb s hs hvalue origin ho => ?_) (fun id s hs => ?_) id s hs
  · obtain ⟨hold, hnew⟩ := Bool.or_eq_false_iff.mp hvalue
    rcases Option.or_eq_some_iff.mp ho with ho | ⟨-, ho⟩
    · exact hbinding b hb hnew origin ho
    · exact hs hold origin ho
  · simp [enter, symbol?] at hs

/-- Whatever an identifier of a flat module imports, its module has a holder. -/
theorem importOf?_hasHolder (hf : file.IsFlat) {x : Ident} {origin : ImportOrigin}
    (hx : (ofFile file).importOf? x = some origin) :
    ∃ st ∈ file.statements, st.HasHolder origin.declaration := by
  obtain ⟨s, hs, ho⟩ := Option.bind_eq_some_iff.mp hx
  split at ho
  · cases ho
  · next hvalue =>
    have hvalue' : s.roles.isTypeOnly = false := by simpa using hvalue
    obtain ⟨id, hid⟩ : ∃ id, (ofFile file).symbol? id = some s := by
      unfold symbolOf? at hs
      split at hs
      · cases hs
      · obtain ⟨id, -, hid⟩ := Option.bind_eq_some_iff.mp hs
        exact ⟨id, hid⟩
    rw [ofFile_symbol] at hid
    obtain ⟨s', hs', rfl⟩ := Option.map_eq_some_iff.mp hid
    rw [Symbol.marked_origin] at ho
    have hflat : AllInner (file.statements.flatMap (·.visits.tail)) := by
      intro v hv
      obtain ⟨st, hst, hv⟩ := List.mem_flatMap.mp hv
      exact hf st hst v hv
    rcases (readThrough_within file).plain hflat hs' with hplain | ⟨s₀, hs₀, -, horigin⟩
    · rw [hplain.2] at ho
      cases ho
    · -- an import is declared before anything is read, and stays as it was
      have hscope : s₀.scope < 1 := by
        obtain ⟨scope, hin, -⟩ := (declared_within file).wf.held hs₀
        have hlt := scope?_lt hin
        rwa [declared, scopes_size_declareAll] at hlt
      obtain ⟨s₁, hs₁, -, -, -, hsame⟩ := (readThrough_within file).symbol hs₀
      obtain rfl : s₁ = s' := Option.some.inj (hs₁.symm.trans hs')
      have hsame' := hsame hscope
      subst hsame'
      have htype : s₁.roles.isTypeOnly = false := by
        rw [← hvalue']
        unfold Symbol.marked
        split <;> rfl
      exact declared_isHeld hf hs₀ htype origin ho

end NameTable

/-- In the setting of a flat file every import has its holder. -/
theorem Setting.holdsImports_ofFile {file : SourceFile} (options : Options) (hf : file.IsFlat) :
    (Setting.ofFile options (.ofFile file) file).1.HoldsImports := by
  intro x origin hx
  obtain ⟨st, hst, d, hd, hsite, hholder⟩ := NameTable.importOf?_hasHolder hf hx
  rw [← hsite]
  refine lookup_holdersOf hholder _ _ ?_
  rw [Interface.dependences_ofFile]
  exact List.mem_filterMap.mpr ⟨st, hst, hd⟩

end RegisterForm
