import RegisterForm.Proofs.Resolve.Nearest
/-!
# The tables that binding goes through

Binding a file is a list of changes of a table of names. Each of them keeps the arenas sound:
scopes lie in older ones, the open scopes are the chain around the innermost one, and whatever
stands for a symbol stands for one that exists. So the walk that looks a name up always comes to
an end, at the first of the open scopes that declares the name.
-/
namespace RegisterForm
open BindStep NameTable

namespace NameTable

/-- A scope has an entry that gives a name a symbol. -/
def Stores (t : NameTable) (i : ScopeId) (name : String) (id : SymbolId) : Prop :=
  ∃ scope, t.scope? i = some scope ∧ (name, id) ∈ scope.symbols

/-- The arenas of a table together with all that points into them. -/
structure Sound (t : NameTable) : Prop extends t.Wf where
  /-- A scope is entered after the one around it. -/
  parent : ∀ {i scope j}, t.scope? i = some scope → scope.parent = some j → j < i
  /-- A scope has one entry for a name. -/
  distinct : ∀ {i scope}, t.scope? i = some scope → (scope.symbols.map (·.1)).Nodup
  ident : ∀ e ∈ t.ofIdent, e.2 < t.symbols.size
  specifier : ∀ e ∈ t.ofSpecifier, e.2 < t.symbols.size

/-- The walk from a scope to those around it in search of a name, with what it comes to. There is
nothing here that bounds it: a walk that does not end comes to nothing. -/
inductive Seeks (t : NameTable) (name : String) : Option ScopeId → Option SymbolId → Prop where
  | outside : t.Seeks name none none
  | unknown {i : ScopeId} : t.scope? i = none → t.Seeks name (some i) none
  | here {i : ScopeId} {scope : Scope} {id : SymbolId} : t.scope? i = some scope →
      scope.symbols.lookup name = some id → t.Seeks name (some i) (some id)
  | around {i : ScopeId} {scope : Scope} {result : Option SymbolId} : t.scope? i = some scope →
      scope.symbols.lookup name = none → t.Seeks name scope.parent result →
      t.Seeks name (some i) result

variable {t t' : NameTable} {name : String} {i k : ScopeId} {id : SymbolId} {b : Binding}

/-! ## What a sound table tells -/

/-- Where no name is repeated, every entry is found. -/
theorem lookup_eq_some_iff_mem {entries : List (String × SymbolId)}
    (h : (entries.map (·.1)).Nodup) : entries.lookup name = some id ↔ (name, id) ∈ entries := by
  induction entries with
  | nil => simp
  | cons e entries ih =>
    obtain ⟨hnew, hrest⟩ := List.nodup_cons.mp h
    rw [List.lookup_cons, List.mem_cons]
    by_cases hname : name = e.1
    · have hnone : (name, id) ∉ entries := fun hm => hnew (List.mem_map.mpr ⟨_, hm, hname⟩)
      subst hname
      simp [hnone, Prod.ext_iff, eq_comm]
    · simp [beq_eq_false_iff_ne.mpr hname, ih hrest, Prod.ext_iff, hname]

theorem symbol?_isSome_iff : (∃ s, t.symbol? id = some s) ↔ id < t.symbols.size := by
  constructor
  · rintro ⟨s, hs⟩
    exact (Array.getElem?_eq_some_iff.mp hs).1
  · exact fun h => ⟨t.symbols[id], Array.getElem?_eq_getElem h⟩

/-- The entries of all scopes are the symbols, each under its name in the scope it records. -/
theorem Sound.stores_iff (h : t.Sound) :
    t.Stores i name id ↔ ∃ s, t.symbol? id = some s ∧ s.scope = i ∧ s.name = name := by
  constructor
  · rintro ⟨scope, hscope, hm⟩
    obtain ⟨s, hs, hname, hin⟩ :=
      h.stored hscope ((lookup_eq_some_iff_mem (h.distinct hscope)).mpr hm)
    exact ⟨s, hs, hin, hname⟩
  · rintro ⟨s, hs, rfl, rfl⟩
    obtain ⟨scope, hscope, hlook⟩ := h.held hs
    exact ⟨scope, hscope, (lookup_eq_some_iff_mem (h.distinct hscope)).mp hlook⟩

/-- Along a chain, the walk comes to the first scope with an entry for the name. -/
theorem IsChain.seeks : ∀ {l : List ScopeId}, t.IsChain l →
    t.Seeks name l.head? (l.findSome? fun i => (t.scope? i).bind (·.symbols.lookup name))
  | [], _ => .outside
  | i :: rest, ⟨⟨scope, hscope, hparent⟩, _, hrest⟩ => by
    rw [List.head?_cons, List.findSome?_cons, hscope, Option.bind_some]
    cases hlook : scope.symbols.lookup name with
    | some id => exact .here hscope hlook
    | none => exact .around hscope hlook (hparent ▸ hrest.seeks)

/-- The walk comes to one result at most. -/
theorem Seeks.unique {start : Option ScopeId} {r r' : Option SymbolId} (h : t.Seeks name start r)
    (h' : t.Seeks name start r') : r = r' := by
  induction h with
  | outside => cases h'; rfl
  | unknown hnone => cases h' <;> simp_all
  | here hscope hlook => cases h' <;> simp_all
  | around hscope hlook _ ih =>
    cases h' with
    | unknown hnone => simp_all
    | here hscope' hlook' =>
      rw [hscope] at hscope'
      cases hscope'
      rw [hlook] at hlook'
      cases hlook'
    | around hscope' _ hrest =>
      rw [hscope] at hscope'
      cases hscope'
      exact ih hrest

/-- Looking a name up is the walk from the innermost open scope. -/
theorem Wf.seeks_iff (h : t.Wf) (result : Option SymbolId) :
    t.Seeks name t.openScopes.head? result ↔ result = t.lookup? name := by
  have hwalk : t.Seeks name t.openScopes.head? (t.lookup? name) :=
    h.lookup?_eq name ▸ h.opened.seeks
  exact ⟨fun hr => hr.unique hwalk, fun hr => hr ▸ hwalk⟩

/-! ## What each change keeps -/

theorem sound_empty (file : Option NodeId) : ({ file } : NameTable).Sound where
  toWf := wf_empty file
  parent h := by simp [scope?] at h
  distinct h := by simp [scope?] at h
  ident := by simp
  specifier := by simp

/-- What identifiers and export names stand for does not matter for the arenas. -/
theorem Sound.of_arenas (h : t.Sound) (hs : t'.scopes = t.scopes) (hy : t'.symbols = t.symbols)
    (ho : t'.IsChain t'.openScopes) (hi : ∀ e ∈ t'.ofIdent, e.2 < t.symbols.size)
    (hsp : ∀ e ∈ t'.ofSpecifier, e.2 < t.symbols.size) : t'.Sound where
  toWf := h.toWf.of_arenas hs hy ho
  parent := by
    simp only [scope?, hs]
    exact h.parent
  distinct := by
    simp only [scope?, hs]
    exact h.distinct
  ident := by rwa [hy]
  specifier := by rwa [hy]

theorem Sound.isChain (h : t.Sound) (hs : t'.scopes = t.scopes) : t'.IsChain t.openScopes :=
  Wf.isChain_of_scopes h.opened hs

theorem Sound.enter (h : t.Sound) (kind : ScopeKind) : (t.enter kind).Sound := by
  have hcases : ∀ {i scope}, (t.enter kind).scope? i = some scope →
      t.scope? i = some scope ∨ i = t.scopes.size ∧ scope = ⟨kind, t.openScopes.head?, []⟩ := by
    intro i scope hscope
    have hlt := scope?_lt hscope
    rw [NameTable.enter, Array.size_push] at hlt
    rcases Nat.lt_succ_iff_lt_or_eq.mp hlt with hold | rfl
    · exact .inl (scope?_enter_old kind hold ▸ hscope)
    · rw [scope?_enter_new] at hscope
      exact .inr ⟨rfl, (Option.some.inj hscope).symm⟩
  exact {
    toWf := h.toWf.enter kind
    parent := by
      intro i scope j hscope hparent
      rcases hcases hscope with hold | ⟨rfl, rfl⟩
      · exact h.parent hold hparent
      · exact h.opened.lt_size j (List.mem_of_mem_head? hparent)
    distinct := by
      intro i scope hscope
      rcases hcases hscope with hold | ⟨-, rfl⟩
      · exact h.distinct hold
      · exact List.nodup_nil
    ident := h.ident
    specifier := h.specifier }

theorem Sound.leave (h : t.Sound) : t.leave.Sound :=
  h.of_arenas rfl rfl (Wf.isChain_of_scopes h.opened.tail rfl) h.ident h.specifier

theorem Sound.withDepth (h : t.Sound) (depth : Nat) : ({ t with depth } : NameTable).Sound :=
  h.of_arenas rfl rfl (h.isChain rfl) h.ident h.specifier

/-- A name that a scope does not declare yet is one more entry of it. -/
theorem Sound.newSymbol (h : t.Sound) {scope : Scope} (hscope : t.scope? k = some scope)
    (hlook : scope.symbols.lookup b.ident.name = none)
    (ht : { t with
      symbols := t.symbols.push ⟨b.ident.name, b.roles, b.ident.id, k, b.origin⟩
      scopes := t.scopes.modify k fun s =>
        { s with symbols := (b.ident.name, t.symbols.size) :: s.symbols }
      ofIdent := (b.ident.id, t.symbols.size) :: t.ofIdent } = t') : t'.Sound := by
  have hcases : ∀ {i s}, t'.scope? i = some s → ∃ old, t.scope? i = some old ∧
      s.parent = old.parent ∧ (s.symbols = old.symbols ∨
        old = scope ∧ s.symbols = (b.ident.name, t.symbols.size) :: old.symbols) := by
    intro i s hs
    rw [← ht] at hs
    simp only [scope?, Array.getElem?_modify] at hs
    by_cases hk : k = i
    · subst hk
      rw [if_pos rfl] at hs
      obtain ⟨old, hold, rfl⟩ := Option.map_eq_some_iff.mp hs
      exact ⟨old, hold, rfl, .inr ⟨Option.some.inj (hold.symm.trans hscope), rfl⟩⟩
    · rw [if_neg hk] at hs
      exact ⟨s, hs, rfl, .inl rfl⟩
  have hwithin : Within 0 [.ident b.ident] b.IsPlain t t' :=
    within_newSymbol h.toWf hscope hlook (Nat.zero_le _) (by simp) ht
  have hsize : t'.symbols.size = t.symbols.size + 1 := by
    rw [← ht]
    exact Array.size_push _
  exact {
    toWf := hwithin.wf
    parent := by
      intro i s j hs hparent
      obtain ⟨old, hold, hsame, -⟩ := hcases hs
      exact h.parent hold (hsame ▸ hparent)
    distinct := by
      intro i s hs
      obtain ⟨old, hold, -, hsymbols | ⟨rfl, hsymbols⟩⟩ := hcases hs
      · exact hsymbols ▸ h.distinct hold
      · have hnew : b.ident.name ∉ old.symbols.map (·.1) := by
          rw [List.lookup_eq_none_iff] at hlook
          rintro hm
          obtain ⟨e, he, hname⟩ := List.mem_map.mp hm
          simpa [hname] using hlook e he
        rw [hsymbols, List.map_cons]
        exact List.nodup_cons.mpr ⟨hnew, h.distinct hold⟩
    ident := by
      intro e he
      rw [hsize]
      rw [← ht] at he
      rcases List.mem_cons.mp he with rfl | he
      · exact Nat.lt_succ_self _
      · exact Nat.lt_succ_of_lt (h.ident e he)
    specifier := by
      intro e he
      rw [hsize]
      rw [← ht] at he
      exact Nat.lt_succ_of_lt (h.specifier e he) }

/-- A name that a scope already declares keeps its entry. -/
theorem Sound.redeclare (h : t.Sound) {scope : Scope} (hscope : t.scope? k = some scope)
    (hlook : scope.symbols.lookup b.ident.name = some id)
    (ht : { t with
      symbols := t.symbols.modify id fun s =>
        { s with roles := s.roles.union b.roles, origin := b.origin.or s.origin }
      ofIdent := (b.ident.id, id) :: t.ofIdent } = t') : t'.Sound := by
  have hwithin : Within 0 [.ident b.ident] b.IsPlain t t' :=
    within_redeclare h.toWf hscope hlook (Nat.zero_le _) (by simp) ht
  have hsize : t'.symbols.size = t.symbols.size := by
    rw [← ht]
    exact Array.size_modify
  have hin : id < t.symbols.size := by
    obtain ⟨s, hs, -⟩ := h.stored hscope hlook
    exact symbol?_isSome_iff.mp ⟨s, hs⟩
  subst ht
  exact {
    toWf := hwithin.wf
    parent := h.parent
    distinct := h.distinct
    ident := by
      intro e he
      rw [hsize]
      rcases List.mem_cons.mp he with rfl | he
      · exact hin
      · exact h.ident e he
    specifier := fun e he => hsize ▸ h.specifier e he }

theorem Sound.declareIn (h : t.Sound) (b : Binding) (k : ScopeId) : (t.declareIn b k).Sound := by
  unfold NameTable.declareIn
  cases hscope : t.scope? k with
  | none => exact h
  | some scope =>
    dsimp only
    cases hlook : scope.symbols.lookup b.ident.name with
    | some id => exact h.redeclare hscope hlook rfl
    | none => exact h.newSymbol hscope hlook rfl

theorem Sound.declare (h : t.Sound) (b : Binding) : (t.declare b).Sound := by
  unfold NameTable.declare
  split
  · exact h
  · exact h.declareIn b _

theorem Sound.declareVar (h : t.Sound) (b : Binding) : (t.declareVar b).Sound := by
  unfold NameTable.declareVar
  split
  · exact h
  · exact h.declareIn b _

theorem Sound.resolve (h : t.Sound) (x : Ident) : (t.resolve x).Sound := by
  unfold NameTable.resolve
  split
  · exact h
  · cases hlook : t.lookup? x.name with
    | none => exact h.of_arenas rfl rfl (h.isChain rfl) h.ident h.specifier
    | some id =>
      refine h.of_arenas rfl rfl (h.isChain rfl) (fun e he => ?_) h.specifier
      rcases List.mem_cons.mp he with rfl | he
      · obtain ⟨s, hs, -⟩ := h.lookup?_name hlook
        exact symbol?_isSome_iff.mp ⟨s, hs⟩
      · exact h.ident e he

/-- Notes what a name of a local export clause refers to. -/
def note (spec : ExportSpecifier) (t : NameTable) : NameTable :=
  match t.ofIdent.lookup spec.source.id with
  | none => t
  | some id => { t with ofSpecifier := (spec.id, id) :: t.ofSpecifier }

theorem note_resolve (spec : ExportSpecifier) (t : NameTable) :
    (t.resolve spec.source).note spec = t.bindSpecifier spec := rfl

theorem Sound.note (h : t.Sound) (spec : ExportSpecifier) : (t.note spec).Sound := by
  unfold NameTable.note
  split
  · exact h
  · next id hlook =>
    refine h.of_arenas rfl rfl (h.isChain rfl) h.ident fun e he => ?_
    rcases List.mem_cons.mp he with rfl | he
    · obtain ⟨l₁, l₂, hentries, -⟩ := List.lookup_eq_some_iff.mp hlook
      exact h.ident (spec.source.id, id) (by simp [hentries])
    · exact h.specifier e he

/-- Marking symbols as exported changes neither their names nor their scopes. -/
theorem Sound.markExported (h : t.Sound) (specs : List ExportSpecifier) :
    (t.markExported specs).Sound := by
  obtain ⟨symbols, hmark, hmarked⟩ := markExported_eq specs t
  have hold : ∀ {id}, id < t.symbols.size → id < (t.markExported specs).symbols.size := by
    intro id hid
    obtain ⟨s, hs⟩ := symbol?_isSome_iff.mpr hid
    exact symbol?_isSome_iff.mp ⟨_, by rw [hmarked, hs]; rfl⟩
  rw [hmark] at hmarked hold ⊢
  exact {
    stored := by
      intro i scope name id hscope hlook
      obtain ⟨s, hs, hname, hin⟩ := h.stored hscope hlook
      exact ⟨_, by rw [hmarked, hs]; rfl, by simpa using hname, by simpa using hin⟩
    held := by
      intro id s hs
      rw [hmarked] at hs
      obtain ⟨old, hold, rfl⟩ := Option.map_eq_some_iff.mp hs
      rw [Symbol.marked_scope, Symbol.marked_name]
      exact h.held hold
    opened := h.isChain rfl
    parent := h.parent
    distinct := h.distinct
    ident := fun e he => hold (h.ident e he)
    specifier := fun e he => hold (h.specifier e he) }

end NameTable

/-! ## All the changes of a file -/

/-- What a step changes, one thing at a time. -/
def BindStep.changes : BindStep → List (NameTable → NameTable)
  | refer spec => [(·.resolve spec.source), (·.note spec)]
  | step => [step.run]

theorem BindStep.foldl_changes (σ : List BindStep) (t : NameTable) :
    (σ.flatMap changes).foldl (fun t change => change t) t = runAll σ t := by
  induction σ generalizing t with
  | nil => rfl
  | cons step σ ih =>
    rw [List.flatMap_cons, List.foldl_append, ih, runAll_cons]
    cases step <;> rfl

namespace SourceFile

/-- What binding a file changes: the scope of the module is entered and filled, its statements are
read, the symbols that its clauses name are marked, and the scope is left. -/
def changes (file : SourceFile) : List (NameTable → NameTable) :=
  file.bindSteps.flatMap BindStep.changes ++
    (exportedSpecifiers file.statements).map (fun spec t => markExported [spec] t) ++
    [NameTable.leave]

/-- The tables that binding a file goes through, from the one without a scope to the finished one.
How deep in the tree the binder is they do not tell. -/
def tables (file : SourceFile) : List NameTable :=
  file.changes.scanl (fun t change => change t) { file := some file.id }

/-- Binding a file goes through a table, at some depth in the tree. -/
def Reaches (file : SourceFile) (t : NameTable) : Prop :=
  { t with depth := 0 } ∈ file.tables

/-- The last of the tables is the one in which the file is bound. -/
theorem getLast?_tables (file : SourceFile) :
    file.tables.getLast? = some (ofFile file) := by
  have hmark : ∀ (specs : List ExportSpecifier) (t : NameTable),
      (specs.map fun spec t => markExported [spec] t).foldl (fun t change => change t) t =
        t.markExported specs := by
    intro specs t
    rw [List.foldl_map]
    rfl
  rw [tables, List.getLast?_scanl, changes, List.foldl_append, List.foldl_append,
    BindStep.foldl_changes, hmark, runAll_steps, ofFile_eq]
  rfl

end SourceFile

namespace NameTable

theorem Sound.change {step : BindStep} {change : NameTable → NameTable}
    (hc : change ∈ step.changes) {t : NameTable} (h : t.Sound) : (change t).Sound := by
  cases step with
  | refer spec =>
    rcases List.mem_pair.mp hc with rfl | rfl
    · exact h.resolve spec.source
    · exact h.note spec
  | enter kind => exact List.mem_singleton.mp hc ▸ h.enter kind
  | leave => exact List.mem_singleton.mp hc ▸ h.leave
  | declare b => exact List.mem_singleton.mp hc ▸ h.declare b
  | declareVar b => exact List.mem_singleton.mp hc ▸ h.declareVar b
  | resolve x => exact List.mem_singleton.mp hc ▸ h.resolve x

theorem sound_scanl : ∀ {changes : List (NameTable → NameTable)} {t : NameTable}, t.Sound →
    (∀ change ∈ changes, ∀ t : NameTable, t.Sound → (change t).Sound) →
    ∀ t' ∈ changes.scanl (fun t change => change t) t, t'.Sound
  | [], t, h, _, t', ht => by
    obtain rfl := List.mem_singleton.mp ht
    exact h
  | change :: changes, t, h, hall, t', ht => by
    rw [List.scanl_cons] at ht
    rcases List.mem_cons.mp ht with rfl | ht
    · exact h
    · exact sound_scanl (hall change (by simp) t h) (fun c hc => hall c (by simp [hc])) t' ht

theorem sound_of_reaches {file : SourceFile} {t : NameTable} (ht : file.Reaches t) : t.Sound := by
  have hall : ∀ change ∈ file.changes, ∀ t : NameTable, t.Sound → (change t).Sound := by
    intro change hc t h
    simp only [SourceFile.changes, List.mem_append, List.mem_flatMap, List.mem_map,
      List.mem_singleton] at hc
    rcases hc with (⟨step, -, hc⟩ | ⟨spec, -, rfl⟩) | rfl
    · exact h.change hc
    · exact h.markExported [spec]
    · exact h.leave
  exact (sound_scanl (sound_empty (some file.id)) hall _ ht).withDepth t.depth

theorem ofFile_atRest (file : SourceFile) :
    (ofFile file).openScopes = [] ∧ (ofFile file).depth = 0 := by
  have hread := (declared_within file).trans
    ((readThrough_within file).mono (Nat.zero_le _) (List.Subset.refl _) fun h => h)
  obtain ⟨symbols, hmark, -⟩ := markExported_eq (exportedSpecifiers file.statements) (readThrough file)
  rw [ofFile_eq, hmark]
  exact ⟨congrArg List.tail hread.openScopes, hread.depth⟩

/-- **Sound arenas.** Every table that binding a file goes through is sound, its scopes store its
symbols where these say and nowhere else, and looking a name up in it ends at the first open scope
that declares the name. Binding ends with no scope open and at the depth where it began, whatever
the table held before and however deep the file is. -/
theorem binding_sound (file : SourceFile) :
    (∀ before : NameTable, file.tables.getLast? = some (before.rebind file) ∧
      (before.rebind file).openScopes = [] ∧ (before.rebind file).depth = 0) ∧
    ∀ t, file.Reaches t → t.Sound ∧
      (∀ i name id, t.Stores i name id ↔
        ∃ s, t.symbol? id = some s ∧ s.scope = i ∧ s.name = name) ∧
      ∀ name,
        (∀ result, t.Seeks name t.openScopes.head? result ↔ result = t.lookup? name) ∧
        t.lookup? name =
          t.openScopes.findSome? fun i => (t.scope? i).bind (·.symbols.lookup name) := by
  refine ⟨fun before => ?_, fun t ht => ?_⟩
  · have hsame : before.rebind file = ofFile file := rebind_eq file before
    rw [hsame]
    exact ⟨file.getLast?_tables, ofFile_atRest file⟩
  · have h := sound_of_reaches ht
    exact ⟨h, fun _ _ _ => h.stores_iff, fun name => ⟨h.seeks_iff, h.lookup?_eq name⟩⟩

end NameTable
end RegisterForm
