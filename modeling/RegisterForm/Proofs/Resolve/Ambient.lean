import RegisterForm.Scope.Query
import RegisterForm.Proofs.Resolve.Nearest
import RegisterForm.Proofs.Script.Holders
import RegisterForm.Proofs.Lowering.Execute
/-!
# Declarations without a runtime form

One more declaration without a runtime form changes what the symbol of its name in the module is,
and nothing else that a table tells. The two tables number their symbols differently, since the
declaration may be the first one of its name.
-/
namespace RegisterForm
open BindStep

/-- The file with one more declaration, without a runtime form, at some place. -/
def SourceFile.withAmbient (file : SourceFile) (place : Nat) (name : Ident) (isExported : Bool) :
    SourceFile :=
  { file with statements :=
      file.statements.take place ++ .ambient name isExported :: file.statements.drop place }

namespace NameTable

/-- What the symbol `s` is with one more declaration of the name in the module. -/
def Becomes (name : String) (s s' : Symbol) : Prop :=
  s'.name = s.name ∧ s'.scope = s.scope ∧
    (s' = s ∨ s.name = name ∧ s.scope = 0 ∧ s'.roles.isTypeOnly = true)

/-- The tables tell the same but for the module's symbol of the name and for the identity `own`.
The symbol `id` of the one is the symbol `π id` of the other. -/
structure Alike (name : String) (own : NodeId) (π : SymbolId → SymbolId) (t t' : NameTable) :
    Prop where
  wf : t.Wf
  wf' : t'.Wf
  openScopes : t'.openScopes = t.openScopes
  size : t'.scopes.size = t.scopes.size
  kind : ∀ k, (t'.scope? k).map (·.kind) = (t.scope? k).map (·.kind)
  lookupIn : ∀ k text, t'.lookupIn k text = (t.lookupIn k text).map π
  symbol : ∀ {id s}, t.symbol? id = some s → ∃ s', t'.symbol? (π id) = some s' ∧ Becomes name s s'
  ident : ∀ {y}, y ≠ own → t'.ofIdent.lookup y = (t.ofIdent.lookup y).map π
  stands : ∀ {y id}, t.ofIdent.lookup y = some id → ∃ s, t.symbol? id = some s
  specifier : ∀ y, t'.ofSpecifier.lookup y = (t.ofSpecifier.lookup y).map π
  refers : ∀ {y id}, t.ofSpecifier.lookup y = some id → ∃ s, t.symbol? id = some s

variable {name : String} {own : NodeId} {π : SymbolId → SymbolId} {t t' : NameTable} {k : ScopeId}
  {b : Binding}

namespace Becomes
variable {s s' : Symbol}

theorem redeclared (h : Becomes name s s') (b : Binding) :
    Becomes name (s.redeclared b) (s'.redeclared b) := by
  obtain ⟨hname, hscope, rfl | ⟨hn, hs, htype⟩⟩ := h
  · exact ⟨rfl, rfl, .inl rfl⟩
  · exact ⟨hname, hscope, .inr ⟨hn, hs, by simp [Symbol.redeclared, Roles.union, htype]⟩⟩

theorem marked (h : Becomes name s s') (isNamed : Bool) :
    Becomes name (s.marked isNamed) (s'.marked isNamed) := by
  obtain ⟨hname, hscope, rfl | ⟨hn, hs, htype⟩⟩ := h
  · exact ⟨rfl, rfl, .inl rfl⟩
  · refine ⟨by simp [hname], by simp [hscope], .inr ⟨by simp [hn], by simp [hs], ?_⟩⟩
    unfold Symbol.marked
    split <;> exact htype

end Becomes

namespace Alike

/-- Two symbols of the one table are not made one. -/
theorem inj (h : Alike name own π t t') {id id' : SymbolId} {s r : Symbol}
    (hs : t.symbol? id = some s) (hr : t.symbol? id' = some r) (he : π id = π id') : id = id' := by
  obtain ⟨s', hs', hn, hk, -⟩ := h.symbol hs
  obtain ⟨r', hr', hn', hk', -⟩ := h.symbol hr
  rw [he, hr'] at hs'
  cases hs'
  exact h.wf.symbol_unique hs hr (hn.symm.trans hn') (hk.symm.trans hk')

theorem scope? (h : Alike name own π t t') {scope : Scope} (hs : t.scope? k = some scope) :
    ∃ scope', t'.scope? k = some scope' ∧ scope'.kind = scope.kind := by
  have hkind := h.kind k
  rw [hs] at hkind
  obtain ⟨scope', hs', hk⟩ := Option.map_eq_some_iff.mp hkind
  exact ⟨scope', hs', hk⟩

theorem lookup? (h : Alike name own π t t') (text : String) :
    t'.lookup? text = (t.lookup? text).map π := by
  rw [h.wf'.lookup?_eq, h.wf.lookup?_eq, h.openScopes]
  have hin : ∀ k, (t'.scope? k).bind (·.symbols.lookup text) =
      ((t.scope? k).bind (·.symbols.lookup text)).map π := (h.lookupIn · text)
  induction t.openScopes with
  | nil => rfl
  | cons k ks ih =>
    rw [List.findSome?_cons, List.findSome?_cons, hin k, ih]
    cases (t.scope? k).bind (·.symbols.lookup text) <;> rfl

end Alike

/-! ## Each step keeps tables alike -/

theorem lookupIn_enter (kind : ScopeKind) (t : NameTable) (k : ScopeId) (text : String) :
    (t.enter kind).lookupIn k text = t.lookupIn k text := by
  unfold lookupIn
  by_cases hk : k < t.scopes.size
  · rw [scope?_enter_old kind hk]
  · have hnone : t.scope? k = none := Array.getElem?_eq_none (Nat.not_lt.mp hk)
    rw [hnone]
    by_cases he : k = t.scopes.size
    · rw [he, scope?_enter_new]
      rfl
    · have hnone' : (t.enter kind).scope? k = none := by
        have hlt : t.scopes.size < k := Nat.lt_of_le_of_ne (Nat.not_lt.mp hk) (Ne.symm he)
        exact Array.getElem?_eq_none (by simpa [NameTable.enter] using Nat.succ_le_of_lt hlt)
      rw [hnone']

theorem Alike.enter (h : Alike name own π t t') (kind : ScopeKind) :
    Alike name own π (t.enter kind) (t'.enter kind) where
  wf := h.wf.enter kind
  wf' := h.wf'.enter kind
  openScopes := by simp [NameTable.enter, h.openScopes, h.size]
  size := by simp [NameTable.enter, h.size]
  kind k := by
    have hkind := h.kind k
    simp only [NameTable.enter, NameTable.scope?, Array.getElem?_push, h.size] at hkind ⊢
    split
    · rfl
    · exact hkind
  lookupIn k text := by rw [lookupIn_enter, lookupIn_enter, h.lookupIn]
  symbol := h.symbol
  ident := h.ident
  stands := h.stands
  specifier := h.specifier
  refers := h.refers

theorem Alike.leave (h : Alike name own π t t') : Alike name own π t.leave t'.leave :=
  { h with
    wf := h.wf.leave
    wf' := h.wf'.leave
    openScopes := congrArg List.tail h.openScopes }

theorem Alike.resolve (h : Alike name own π t t') (x : Ident) :
    Alike name own π (t.resolve x) (t'.resolve x) := by
  obtain ⟨hs, hy, ho⟩ := resolve_arenas x t
  obtain ⟨hs', hy', ho'⟩ := resolve_arenas x t'
  have hspec : ∀ t : NameTable, (t.resolve x).ofSpecifier = t.ofSpecifier := by
    intro t
    unfold NameTable.resolve
    split
    · rfl
    · split <;> rfl
  have hscope : ∀ k, (t.resolve x).scope? k = t.scope? k := fun k => congrArg (·[k]?) hs
  have hscope' : ∀ k, (t'.resolve x).scope? k = t'.scope? k := fun k => congrArg (·[k]?) hs'
  have hsymbol : ∀ k, (t.resolve x).symbol? k = t.symbol? k := fun k => congrArg (·[k]?) hy
  have hsymbol' : ∀ k, (t'.resolve x).symbol? k = t'.symbol? k := fun k => congrArg (·[k]?) hy'
  refine {
    wf := run_wf h.wf (.resolve x), wf' := run_wf h.wf' (.resolve x)
    openScopes := by rw [ho, ho', h.openScopes]
    size := by rw [hs, hs', h.size]
    kind := fun k => by rw [hscope, hscope', h.kind]
    lookupIn := fun k text => ?_
    symbol := fun {id s} hid => ?_
    ident := fun {y} hne => ?_
    stands := fun {y id} hid => ?_
    specifier := fun y => by rw [hspec, hspec, h.specifier]
    refers := fun {y id} hid => ?_ }
  · have hin := h.lookupIn k text
    simpa only [NameTable.lookupIn, hscope, hscope'] using hin
  · rw [hsymbol] at hid
    rw [hsymbol']
    exact h.symbol hid
  · rw [resolve_lookup, resolve_lookup, h.lookup?, h.ident hne]
    split
    · cases t.ofIdent.lookup y <;> rfl
    · rfl
  · rw [hsymbol]
    rw [resolve_lookup] at hid
    split at hid
    · rcases Option.or_eq_some_iff.mp hid with hid | ⟨-, hid⟩
      · exact h.stands hid
      · obtain ⟨s, hs, -⟩ := h.wf.lookup?_name hid
        exact ⟨s, hs⟩
    · exact h.stands hid
  · rw [hsymbol]
    rw [hspec] at hid
    exact h.refers hid

theorem Alike.refer (h : Alike name own π t t') {spec : ExportSpecifier}
    (hx : spec.source.id ≠ own) :
    Alike name own π (t.bindSpecifier spec) (t'.bindSpecifier spec) := by
  have hr := h.resolve spec.source
  unfold NameTable.bindSpecifier
  dsimp only
  rw [hr.ident hx]
  cases hid : (t.resolve spec.source).ofIdent.lookup spec.source.id with
  | none => exact hr
  | some id =>
    refine { hr with
      wf := hr.wf.of_arenas rfl rfl (Wf.isChain_of_scopes hr.wf.opened rfl)
      wf' := hr.wf'.of_arenas rfl rfl (Wf.isChain_of_scopes hr.wf'.opened rfl)
      specifier := fun y => ?_
      refers := fun {y j} hj => ?_ }
    · change ((spec.id, π id) :: (t'.resolve spec.source).ofSpecifier).lookup y =
        (((spec.id, id) :: (t.resolve spec.source).ofSpecifier).lookup y).map π
      rw [lookup_cons, lookup_cons, hr.specifier]
      split <;> rfl
    · change ((spec.id, id) :: (t.resolve spec.source).ofSpecifier).lookup y = some j at hj
      rw [lookup_cons] at hj
      split at hj
      · cases hj
        exact hr.stands hid
      · exact hr.refers hj

/-- What a declaration does to the symbols. -/
theorem declareIn_symbol {scope : Scope} (hscope : t.scope? k = some scope) (id : SymbolId) :
    (t.declareIn b k).symbol? id =
      match t.lookupIn k b.ident.name with
      | some p => if id = p then (t.symbol? id).map (·.redeclared b) else t.symbol? id
      | none => if id = t.symbols.size then some (.declared k b) else t.symbol? id := by
  have hin : t.lookupIn k b.ident.name = scope.symbols.lookup b.ident.name := by
    rw [NameTable.lookupIn, hscope]
    rfl
  unfold declareIn
  rw [hin, hscope]
  dsimp only
  cases scope.symbols.lookup b.ident.name with
  | some p =>
    simp only [symbol?, Array.getElem?_modify, eq_comm (a := id)]
    rfl
  | none =>
    simp only [symbol?, Array.getElem?_push]
    rfl

theorem declareIn_kind (b : Binding) (k j : ScopeId) (t : NameTable) :
    ((t.declareIn b k).scope? j).map (·.kind) = (t.scope? j).map (·.kind) := by
  unfold declareIn
  split
  · rfl
  · split
    · rfl
    · by_cases hj : k = j
      · subst hj
        simp [NameTable.scope?, Array.getElem?_modify, Function.comp_def]
      · simp [NameTable.scope?, Array.getElem?_modify, hj]

theorem declareIn_rest (b : Binding) (k : ScopeId) (t : NameTable) :
    (t.declareIn b k).openScopes = t.openScopes ∧
      (t.declareIn b k).scopes.size = t.scopes.size ∧
      (t.declareIn b k).ofSpecifier = t.ofSpecifier := by
  unfold declareIn
  split
  · exact ⟨rfl, rfl, rfl⟩
  · split <;> simp

theorem lt_of_symbol? {id : SymbolId} {s : Symbol} (hs : t.symbol? id = some s) :
    id < t.symbols.size := (Array.getElem?_eq_some_iff.mp hs).1

/-- Both tables get a symbol, or the symbol of both gains the roles of the declaration. -/
theorem Alike.declareIn (h : Alike name own π t t') (b : Binding) (k : ScopeId) :
    ∃ π', Alike name own π' (t.declareIn b k) (t'.declareIn b k) := by
  cases hscope : t.scope? k with
  | none =>
    have hkind := h.kind k
    rw [hscope] at hkind
    have hscope' : t'.scope? k = none := Option.map_eq_none_iff.mp hkind
    have hsame : t.declareIn b k = t ∧ t'.declareIn b k = t' := by
      unfold NameTable.declareIn
      rw [hscope, hscope']
      exact ⟨rfl, rfl⟩
    rw [hsame.1, hsame.2]
    exact ⟨π, h⟩
  | some scope =>
    obtain ⟨scope', hscope', -⟩ := h.scope? hscope
    have hw : Within 0 [.ident b.ident] b.IsPlain t (t.declareIn b k) :=
      within_declareIn h.wf (Nat.zero_le _) (by simp)
    have hw' : Within 0 [.ident b.ident] b.IsPlain t' (t'.declareIn b k) :=
      within_declareIn h.wf' (Nat.zero_le _) (by simp)
    obtain ⟨ho, hsize, hspec⟩ := declareIn_rest b k t
    obtain ⟨ho', hsize', hspec'⟩ := declareIn_rest b k t'
    have hkept : ∀ {id s}, t.symbol? id = some s → ∃ s, (t.declareIn b k).symbol? id = some s :=
      fun hs => (hw.symbol hs).imp fun _ h => h.1
    have hkind : ∀ j, ((t'.declareIn b k).scope? j).map (·.kind) =
        ((t.declareIn b k).scope? j).map (·.kind) := fun j => by
      rw [declareIn_kind, declareIn_kind, h.kind]
    cases hold : t.lookupIn k b.ident.name with
    | some p =>
      have hold' : t'.lookupIn k b.ident.name = some (π p) := by rw [h.lookupIn, hold]; rfl
      obtain ⟨r, hr, -⟩ := h.wf.symbol_of_lookupIn hold
      refine ⟨π, {
        wf := hw.wf, wf' := hw'.wf, kind := hkind
        openScopes := by rw [ho, ho', h.openScopes]
        size := by rw [hsize, hsize', h.size]
        lookupIn := fun j text => ?_, symbol := fun {id s} hs => ?_, ident := fun {y} hy => ?_
        stands := fun {y id} hid => ?_, specifier := fun y => by rw [hspec, hspec', h.specifier]
        refers := fun {y id} hid => hkept (h.refers (hspec ▸ hid)).choose_spec }⟩
      · rw [declareIn_lookupIn hscope, declareIn_lookupIn hscope']
        split
        · next he =>
          rw [he.2, hold, hold']
          rfl
        · exact h.lookupIn j text
      · rw [declareIn_symbol hscope, hold] at hs
        rw [declareIn_symbol hscope', hold']
        dsimp only at hs ⊢
        split at hs
        · next he =>
          subst he
          obtain ⟨s₀, hs₀, rfl⟩ := Option.map_eq_some_iff.mp hs
          obtain ⟨s', hs', hbecomes⟩ := h.symbol hs₀
          exact ⟨_, by rw [if_pos rfl, hs']; rfl, hbecomes.redeclared b⟩
        · next hne =>
          obtain ⟨s', hs', hbecomes⟩ := h.symbol hs
          exact ⟨s', by rw [if_neg fun he => hne (h.inj hs hr he), hs'], hbecomes⟩
      · rw [declareIn_lookup hscope, declareIn_lookup hscope', hold, hold']
        split
        · rfl
        · exact h.ident hy
      · rw [declareIn_lookup hscope, hold] at hid
        split at hid
        · cases hid
          exact hkept hr
        · exact hkept (h.stands hid).choose_spec
    | none =>
      have hold' : t'.lookupIn k b.ident.name = none := by rw [h.lookupIn, hold]; rfl
      let π' : SymbolId → SymbolId := fun id => if id = t.symbols.size then t'.symbols.size else π id
      have hπ : ∀ {id s}, t.symbol? id = some s → π' id = π id := fun hs =>
        if_neg (Nat.ne_of_lt (lt_of_symbol? hs))
      have hnew : π' t.symbols.size = t'.symbols.size := if_pos rfl
      have hmap : ∀ o : Option SymbolId, (∀ id, o = some id → ∃ s, t.symbol? id = some s) →
          o.map π = o.map π' := by
        intro o ho
        cases o with
        | none => rfl
        | some id =>
          obtain ⟨s, hs⟩ := ho id rfl
          exact congrArg some (hπ hs).symm
      refine ⟨π', {
        wf := hw.wf, wf' := hw'.wf, kind := hkind
        openScopes := by rw [ho, ho', h.openScopes]
        size := by rw [hsize, hsize', h.size]
        lookupIn := fun j text => ?_, symbol := fun {id s} hs => ?_, ident := fun {y} hy => ?_
        stands := fun {y id} hid => ?_
        specifier := fun y => by
          rw [hspec, hspec', h.specifier, hmap _ fun id hid => h.refers hid]
        refers := fun {y id} hid => hkept (h.refers (hspec ▸ hid)).choose_spec }⟩
      · rw [declareIn_lookupIn hscope, declareIn_lookupIn hscope']
        split
        · next he =>
          rw [he.2, hold, hold']
          exact congrArg some hnew.symm
        · rw [h.lookupIn]
          refine hmap _ fun id hid => ?_
          obtain ⟨s, hs, -⟩ := h.wf.symbol_of_lookupIn hid
          exact ⟨s, hs⟩
      · rw [declareIn_symbol hscope, hold] at hs
        rw [declareIn_symbol hscope', hold']
        dsimp only at hs ⊢
        split at hs
        · next he =>
          cases hs
          exact ⟨.declared k b, by rw [he, hnew, if_pos rfl], rfl, rfl, .inl rfl⟩
        · obtain ⟨s', hs', hbecomes⟩ := h.symbol hs
          rw [hπ hs, if_neg (Nat.ne_of_lt (lt_of_symbol? hs'))]
          exact ⟨s', hs', hbecomes⟩
      · rw [declareIn_lookup hscope, declareIn_lookup hscope', hold, hold']
        split
        · exact congrArg some hnew.symm
        · rw [h.ident hy]
          exact hmap _ fun id hid => h.stands hid
      · rw [declareIn_lookup hscope, hold] at hid
        split at hid
        · cases hid
          exact ⟨_, (declareIn_names hscope hold).symbol.choose_spec.1⟩
        · exact hkept (h.stands hid).choose_spec

theorem Alike.declare (h : Alike name own π t t') (b : Binding) :
    ∃ π', Alike name own π' (t.declare b) (t'.declare b) := by
  unfold NameTable.declare
  rw [h.openScopes]
  cases t.openScopes.head? with
  | none => exact ⟨π, h⟩
  | some k => exact h.declareIn b k

theorem Alike.declareVar (h : Alike name own π t t') (b : Binding) :
    ∃ π', Alike name own π' (t.declareVar b) (t'.declareVar b) := by
  have hvar : t'.varScope? = t.varScope? := by
    unfold varScope?
    rw [h.openScopes]
    congr 1
    funext k
    have hkind := congrArg (Option.any ScopeKind.holdsVars) (h.kind k)
    simpa only [Option.any_map, Function.comp_def] using hkind
  unfold NameTable.declareVar
  rw [hvar]
  cases t.varScope? with
  | none => exact ⟨π, h⟩
  | some k => exact h.declareIn b k

theorem Alike.run (h : Alike name own π t t') : (step : BindStep) →
    (∀ spec, step = .refer spec → spec.source.id ≠ own) →
    ∃ π', Alike name own π' (step.run t) (step.run t')
  | .enter kind, _ => ⟨π, h.enter kind⟩
  | .leave, _ => ⟨π, h.leave⟩
  | .declare b, _ => h.declare b
  | .declareVar b, _ => h.declareVar b
  | .resolve x, _ => ⟨π, h.resolve x⟩
  | .refer spec, hx => ⟨π, h.refer (hx spec rfl)⟩

theorem Alike.runAll : ∀ {σ : List BindStep} {π : SymbolId → SymbolId} {t t' : NameTable},
    Alike name own π t t' → (∀ x ∈ BindStep.resolved σ, x.id ≠ own) →
    ∃ π', Alike name own π' (runAll σ t) (runAll σ t')
  | [], π, _, _, h, _ => ⟨π, h⟩
  | step :: σ, _, _, _, h, hx => by
    rw [resolved_cons] at hx
    obtain ⟨π', h'⟩ := h.run step fun spec he => hx _ (by simp [he, BindStep.resolved?])
    exact h'.runAll fun x hm => hx x (by simp [hm])

end NameTable

/-! ## Filling the module's scope -/

theorem stmtsSteps_append (before after : List Stmt) (d : Nat) :
    stmtsBindSteps (before ++ after) d = stmtsBindSteps before d ++ stmtsBindSteps after d := by
  induction before with
  | nil => rfl
  | cons st before ih => rw [List.cons_append, stmtsBindSteps, stmtsBindSteps, ih, List.append_assoc]

namespace SourceFile
variable {file : SourceFile} {place : Nat} {a : Ident} {isExported : Bool}

/-- The bindings of the module are those of before and one more. -/
theorem bindings_withAmbient (file : SourceFile) (place : Nat) (a : Ident) (isExported : Bool) :
    ∃ before after, file.bindings = before ++ after ∧
      (file.withAmbient place a isExported).bindings =
        before ++ ⟨a, { isTypeOnly := true }, none⟩ :: after := by
  refine ⟨blockVarBindings file.statements ++ blockLexicalBindings true (file.statements.take place),
    blockLexicalBindings true (file.statements.drop place), ?_, ?_⟩
  · rw [bindings, List.append_assoc]
    congr 1
    unfold blockLexicalBindings
    rw [← List.flatMap_append, List.take_append_drop]
  · have hvars : blockVarBindings (file.withAmbient place a isExported).statements =
        blockVarBindings file.statements := by
      conv_rhs => rw [← List.take_append_drop place file.statements]
      rw [withAmbient, blockVarBindings_append, blockVarBindings_append]
      rfl
    rw [bindings, hvars, List.append_assoc]
    congr 1
    simp [withAmbient, blockLexicalBindings, Stmt.lexicalBindings, bindingsOf]

theorem ids_withAmbient (file : SourceFile) (place : Nat) (a : Ident) (isExported : Bool) :
    ∃ before after, file.ids = before ++ after ∧
      (file.withAmbient place a isExported).ids = before ++ a.id :: after := by
  refine ⟨(stmtsVisits (file.statements.take place)).flatMap Visit.ids,
    (stmtsVisits (file.statements.drop place)).flatMap Visit.ids, ?_, ?_⟩
  · rw [← List.flatMap_append, ← NameTable.stmtsVisits_append, List.take_append_drop]
    rfl
  · rw [ids, visits, withAmbient, NameTable.stmtsVisits_append, List.flatMap_append]
    rfl

theorem WellNumbered.of_withAmbient (h : (file.withAmbient place a isExported).WellNumbered) :
    file.WellNumbered ∧ a.id ∉ file.ids := by
  obtain ⟨before, after, hids, hids'⟩ := file.ids_withAmbient place a isExported
  obtain ⟨hnodup, hnumbered⟩ := h
  rw [hids'] at hnodup hnumbered
  have hperm : (before ++ a.id :: after).Perm (a.id :: (before ++ after)) := List.perm_middle
  obtain ⟨hnot, hrest⟩ := List.nodup_cons.mp (hperm.nodup_iff.mp hnodup)
  rw [← hids] at hnot hrest
  refine ⟨⟨hrest, fun hm => hnumbered ?_⟩, hnot⟩
  rw [hids] at hm
  exact hperm.mem_iff.mpr (List.mem_cons_of_mem _ hm)

end SourceFile

namespace NameTable
variable {file : SourceFile}

/-- Once the module's scope is filled, an identifier stands for something if it is declared there. -/
theorem declared_lookup (hw : file.WellNumbered) (y : NodeId) :
    (declared file).ofIdent.lookup y =
      (file.bindings.find? (·.ident.id == y)).bind fun b =>
        (declared file).lookupIn 0 b.ident.name := by
  cases hfind : file.bindings.find? (·.ident.id == y) with
  | some b =>
    have hy : b.ident.id = y := by simpa using List.find?_some hfind
    rw [← hy]
    exact (declared_holds hw).ident b (List.mem_of_find?_eq_some hfind)
  | none =>
    have hwithin : Within 0 (file.bindings.map (.ident ·.ident)) (∀ b ∈ file.bindings, b.IsPlain)
        (({ file := some file.id } : NameTable).enter .module) (declared file) := by
      refine within_declareAll ((wf_empty _).enter .module) (fun _ _ => Nat.zero_le _) fun b hb => ?_
      exact List.mem_filterMap.mpr ⟨.ident b.ident, List.mem_map_of_mem hb, rfl⟩
    refine hwithin.ident fun x hx => ?_
    obtain ⟨v, hv, hvx⟩ := List.mem_filterMap.mp hx
    obtain ⟨b, hb, rfl⟩ := List.mem_map.mp hv
    obtain rfl := Option.some.inj hvx
    simpa using List.find?_eq_none.mp hfind b hb

theorem declared_scope? (file : SourceFile) (k : ScopeId) :
    ((declared file).scope? k).map (·.kind) = if k = 0 then some .module else none := by
  split
  · next hk =>
    subst hk
    obtain ⟨scope, hscope, hkind⟩ := (declared_within file).kind (scope?_enter_new .module _)
    have hzero : (declared file).scope? 0 = some scope := hscope
    rw [hzero]
    exact congrArg some hkind
  · next hk =>
    have hsize : (declared file).scopes.size = 1 := by
      rw [declared, scopes_size_declareAll]
      rfl
    have hnone : (declared file).scope? k = none :=
      Array.getElem?_eq_none (by rw [hsize]; exact Nat.one_le_iff_ne_zero.mpr hk)
    rw [hnone]
    rfl

/-- Every symbol of the filled scope is the one that the bindings make of its name. -/
theorem declared_symbol (hw : file.WellNumbered) {id : SymbolId} {s : Symbol}
    (hs : (declared file).symbol? id = some s) : s.scope = 0 ∧
      (declared file).lookupIn 0 s.name = some id ∧ symbolFor 0 s.name file.bindings = some s := by
  have hwf := (declared_within file).wf
  obtain ⟨scope, hscope, -⟩ := hwf.held hs
  have hkind := declared_scope? file s.scope
  rw [hscope] at hkind
  have hzero : s.scope = 0 := by
    by_contra hne
    rw [if_neg hne] at hkind
    cases hkind
  have hin := hwf.lookupIn_of_symbol hs
  rw [hzero] at hin
  exact ⟨hzero, hin, (declared_holds hw).symbol_eq hs hzero⟩

theorem declared_alike {place : Nat} {a : Ident} {isExported : Bool}
    (hw : (file.withAmbient place a isExported).WellNumbered)
    (hvalue : ∃ b ∈ file.bindings, b.ident.name = a.name) :
    ∃ π, Alike a.name a.id π (declared file) (declared (file.withAmbient place a isExported)) := by
  obtain ⟨hfile, -⟩ := hw.of_withAmbient
  obtain ⟨before, after, hbs, hbs'⟩ := file.bindings_withAmbient place a isExported
  have hids := hw.nodup
  generalize file.withAmbient place a isExported = file' at hw hbs'
  have hholds := declared_holds hfile
  have hholds' := declared_holds hw
  have hsub : ∀ b ∈ file.bindings, b ∈ file'.bindings := by
    intro b hb
    rw [hbs] at hb
    rw [hbs']
    exact (List.mem_append.mp hb).elim (List.mem_append_left _)
      fun h => List.mem_append_right _ (List.mem_cons_of_mem _ h)
  -- A name has a symbol in both tables or in neither.
  have hnames : ∀ text, (declared file').lookupIn 0 text = none ↔
      (declared file).lookupIn 0 text = none := by
    intro text
    rw [← Option.not_isSome_iff_eq_none, ← Option.not_isSome_iff_eq_none, hholds.lookupIn_isSome,
      hholds'.lookupIn_isSome, Bool.not_eq_true, Bool.not_eq_true, List.any_eq_false,
      List.any_eq_false]
    refine ⟨fun h b hb => h b (hsub b hb), fun h b hb => ?_⟩
    rw [hbs'] at hb
    rcases List.mem_append.mp hb with hb | hb
    · exact h b (by rw [hbs]; simp [hb])
    · rcases List.mem_cons.mp hb with rfl | hb
      · obtain ⟨c, hc, hname⟩ := hvalue
        rw [← hname]
        exact h c hc
      · exact h b (by rw [hbs]; simp [hb])
  let π : SymbolId → SymbolId := fun id =>
    (((declared file).symbol? id).bind fun s => (declared file').lookupIn 0 s.name).getD id
  have hπ : ∀ text, (declared file').lookupIn 0 text = ((declared file).lookupIn 0 text).map π := by
    intro text
    cases hold : (declared file).lookupIn 0 text with
    | none => exact (hnames text).mpr hold
    | some id =>
      obtain ⟨s, hs, rfl, -⟩ := (declared_within file).wf.symbol_of_lookupIn hold
      obtain ⟨id', hid'⟩ : ∃ id', (declared file').lookupIn 0 s.name = some id' := by
        rw [← Option.ne_none_iff_exists', ne_eq, hnames, hold]
        exact Option.some_ne_none id
      have hval : π id = id' := by
        change (((declared file).symbol? id).bind _).getD id = id'
        rw [hs, Option.bind_some, hid']
        rfl
      rw [hid', Option.map_some, hval]
  have hnospec : ∀ file : SourceFile, (declared file).ofSpecifier = [] := by
    intro file
    have hnone : ∀ (bs : List Binding) (t : NameTable),
        (t.declareAll bs).ofSpecifier = t.ofSpecifier := by
      intro bs
      induction bs with
      | nil => exact fun _ => rfl
      | cons b bs ih =>
        intro t
        refine (ih (t.declare b)).trans ?_
        unfold NameTable.declare
        split
        · rfl
        · exact (declareIn_rest b _ t).2.2
    exact hnone _ _
  refine ⟨π, {
    wf := (declared_within file).wf, wf' := (declared_within file').wf
    openScopes := (declared_within file').openScopes.trans (declared_within file).openScopes.symm
    size := by
      rw [declared, declared, scopes_size_declareAll, scopes_size_declareAll]
      rfl
    kind := fun k => by rw [declared_scope?, declared_scope?]
    lookupIn := fun k text => ?_, symbol := fun {id s} hs => ?_, ident := fun {y} hy => ?_
    stands := fun {y id} hid => ?_
    specifier := fun y => by rw [hnospec, hnospec]; rfl
    refers := fun {y id} hid => by rw [hnospec] at hid; cases hid }⟩
  · by_cases hk : k = 0
    · rw [hk, hπ]
    · have hnone : ∀ file : SourceFile, (declared file).lookupIn k text = none := by
        intro file
        have hkind := declared_scope? file k
        rw [if_neg hk] at hkind
        rw [NameTable.lookupIn, Option.map_eq_none_iff.mp hkind]
        rfl
      rw [hnone, hnone]
      rfl
  · obtain ⟨hzero, hin, hfor⟩ := declared_symbol hfile hs
    have hin' := hπ s.name
    rw [hin] at hin'
    obtain ⟨s', hs', hname', hscope'⟩ := (declared_within file').wf.symbol_of_lookupIn hin'
    refine ⟨s', hs', hname', hscope'.trans hzero.symm, ?_⟩
    have hfor' := (declared_symbol hw hs').2.2
    rw [hname'] at hfor'
    by_cases hname : s.name = a.name
    · refine .inr ⟨hname, hzero, ?_⟩
      rw [symbolFor_any (f := (·.isTypeOnly)) (fun _ _ => rfl) hfor', hbs']
      simp [hname]
    · have hsame : symbolFor 0 s.name file'.bindings = symbolFor 0 s.name file.bindings := by
        rw [← symbolFor_filter, ← symbolFor_filter 0 s.name file.bindings, hbs, hbs',
          List.filter_append, List.filter_append, List.filter_cons_of_neg]
        simpa using Ne.symm hname
      rw [hsame, hfor] at hfor'
      exact .inl (Option.some.inj hfor').symm
  · rw [declared_lookup hfile, declared_lookup hw]
    have hfind : file'.bindings.find? (·.ident.id == y) = file.bindings.find? (·.ident.id == y) := by
      have hother : (⟨a, { isTypeOnly := true }, none⟩ :: after : List Binding).find?
          (·.ident.id == y) = after.find? (·.ident.id == y) :=
        List.find?_cons_of_neg (by simpa using Ne.symm hy)
      rw [hbs, hbs', List.find?_append, List.find?_append, hother]
    rw [hfind]
    cases file.bindings.find? (·.ident.id == y) with
    | none => rfl
    | some b => exact hπ b.ident.name
  · rw [declared_lookup hfile] at hid
    obtain ⟨b, -, hin⟩ := Option.bind_eq_some_iff.mp hid
    obtain ⟨s, hs, -⟩ := (declared_within file).wf.symbol_of_lookupIn hin
    exact ⟨s, hs⟩

/-! ## The tables of both files -/

variable {place : Nat} {a : Ident} {isExported : Bool}

theorem readThrough_alike (hw : (file.withAmbient place a isExported).WellNumbered)
    (hvalue : ∃ b ∈ file.bindings, b.ident.name = a.name) :
    ∃ π, Alike a.name a.id π (readThrough file)
      (readThrough (file.withAmbient place a isExported)) := by
  obtain ⟨π, hstart⟩ := declared_alike hw hvalue
  have hsteps : stmtsBindSteps (file.withAmbient place a isExported).statements 0 =
      stmtsBindSteps file.statements 0 := by
    conv_rhs => rw [← List.take_append_drop place file.statements]
    rw [SourceFile.withAmbient, stmtsSteps_append, stmtsSteps_append, stmtsBindSteps]
    rfl
  rw [readThrough_eq, readThrough_eq, hsteps]
  refine hstart.runAll fun x hx he => hw.of_withAmbient.2 ?_
  have hcount := (follows_stmts file.statements).once [file.bindings] x (Nat.zero_le _)
  have hmem : x ∈ identsIn file.visits := List.count_pos_iff.mp
    (Nat.lt_of_lt_of_le (List.count_pos_iff.mpr hx) (Nat.le_of_add_right_le hcount))
  rw [← he]
  exact (identIds_sublist _).subset (List.mem_map_of_mem hmem)

/-- A declaration without a runtime form changes the module's symbol of its own name, which is no
value any more, and what an identifier tells that stands for another symbol stays as it is. -/
theorem symbolOf?_withAmbient (hw : (file.withAmbient place a isExported).WellNumbered)
    (hvalue : ∃ b ∈ file.bindings, b.ident.name = a.name) {x : Ident} (hx : x.id ≠ a.id) :
    (ofFile (file.withAmbient place a isExported)).symbolOf? x = (ofFile file).symbolOf? x ∨
      ∃ s s', (ofFile file).symbolOf? x = some s ∧
        (ofFile (file.withAmbient place a isExported)).symbolOf? x = some s' ∧
        s.name = a.name ∧ s.scope = 0 ∧ s'.name = a.name ∧ s'.scope = 0 ∧
        s'.roles.isTypeOnly = true := by
  obtain ⟨π, halike⟩ := readThrough_alike hw hvalue
  have hspecs : exportedSpecifiers (file.withAmbient place a isExported).statements =
      exportedSpecifiers file.statements := by
    conv_rhs => rw [← List.take_append_drop place file.statements]
    unfold exportedSpecifiers SourceFile.withAmbient
    rw [List.flatMap_append, List.flatMap_append, List.flatMap_cons]
    rfl
  unfold symbolOf?
  by_cases hsynthetic : x.id.isSynthetic
  · exact .inl (by rw [if_pos hsynthetic, if_pos hsynthetic])
  rw [if_neg hsynthetic, if_neg hsynthetic, ofFile_ofIdent, ofFile_ofIdent, halike.ident hx]
  cases hid : (readThrough file).ofIdent.lookup x.id with
  | none => exact .inl rfl
  | some id =>
    obtain ⟨s, hs⟩ := halike.stands hid
    obtain ⟨s', hs', hbecomes⟩ := halike.symbol hs
    simp only [Option.map_some, Option.bind_some, ofFile_symbol, hs, hs', hspecs]
    have hmark : ((exportedSpecifiers file.statements).any fun spec =>
          (ofFile (file.withAmbient place a isExported)).ofSpecifier.lookup spec.id == some (π id)) =
        (exportedSpecifiers file.statements).any fun spec =>
          (ofFile file).ofSpecifier.lookup spec.id == some id := by
      refine congrArg (List.any (exportedSpecifiers file.statements)) (funext fun spec => ?_)
      rw [ofFile_ofSpecifier, ofFile_ofSpecifier, halike.specifier]
      cases hl : (readThrough file).ofSpecifier.lookup spec.id with
      | none => rfl
      | some j =>
        obtain ⟨r, hr⟩ := halike.refers hl
        by_cases hj : j = id
        · simp [hj]
        · have hne : π j ≠ π id := fun he => hj (halike.inj hr hs he)
          simp [hj, hne]
    rw [hmark]
    obtain ⟨hname, hscope, hsame | ⟨hn, hk, htype⟩⟩ := hbecomes.marked
      ((exportedSpecifiers file.statements).any fun spec =>
        (ofFile file).ofSpecifier.lookup spec.id == some id)
    · exact .inl (congrArg some hsame)
    · exact .inr ⟨_, _, rfl, rfl, hn, hk, hname.trans hn, hscope.trans hk, htype⟩

/-- What stands for no import and is not exported stays so. -/
theorem answers_withAmbient (hw : (file.withAmbient place a isExported).WellNumbered)
    (hvalue : ∃ b ∈ file.bindings, b.ident.name = a.name) {x : Ident} (hx : x.id ≠ a.id)
    (himport : (ofFile file).importOf? x = none) (hexport : (ofFile file).exporterOf? x = none) :
    (ofFile (file.withAmbient place a isExported)).importOf? x = none ∧
      (ofFile (file.withAmbient place a isExported)).exporterOf? x = none := by
  rcases symbolOf?_withAmbient hw hvalue hx with hsame | ⟨s, s', -, hs', -, -, -, -, htype⟩
  · rw [exporterOf?, ofFile_file] at hexport ⊢
    rw [importOf?] at himport ⊢
    rw [hsame]
    exact ⟨himport, hexport⟩
  · simp [importOf?, exporterOf?, hs', htype, Roles.isValue]

end NameTable

/-! ## Lowering with one more declaration -/

open NameTable

/-- The dependencies of a lowered file are those that its statements name. -/
theorem lower_dependencies {options : Options} {names : NameTable} {file : SourceFile}
    {lowered : Lowered} (h : lower options names file = .ok lowered) :
    ∃ groups, Dependency.group file (file.statements.filterMap Stmt.dependence?) = .ok groups ∧
      lowered.dependencies = groups.map (·.name) := by
  rw [lower_eq] at h
  simp only [bind, Except.bind] at h
  rw [show (Setting.ofFile options names file).1.interface.dependences =
    file.statements.filterMap Stmt.dependence? from Interface.dependences_ofFile names file] at h
  split at h
  · cases h
  · next groups hgroups =>
    split at h
    · cases h
    · cases h
      exact ⟨groups, hgroups, rfl⟩

variable {file : SourceFile} {place : Nat} {a : Ident} {isExported : Bool} {options : Options}

/-- `class C {} export { C };` -/
def exportedClass : SourceFile where
  id := .numbered 20
  name := "m.ts"
  statements := [.classDecl {} ⟨some ⟨.numbered 0, "C"⟩, none, []⟩,
    .exportFrom ⟨.numbered 2, {}⟩ (some (.named [⟨.numbered 3, ⟨.numbered 4, "C"⟩, none, false⟩]))
      none false]

/-- `class C {} interface C {} export { C };` -/
def mergedClass : SourceFile := exportedClass.withAmbient 1 ⟨.numbered 1, "C"⟩ false

theorem mergedClass_wellNumbered : mergedClass.WellNumbered := ⟨by decide, by decide⟩

end RegisterForm
